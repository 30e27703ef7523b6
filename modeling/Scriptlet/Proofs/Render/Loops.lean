import Scriptlet.Proofs.Parse.Truthful
import Scriptlet.Proofs.Render.RoundTrip
import Scriptlet.Proofs.Syntax.Parts
import Scriptlet.Syntax.Equality

/-!
# Proofs/Render/Loops — which printed loops are read back

The first clause of a loop header is read up to one semicolon.  The printer lets a binding bring its
own and writes one after everything else.  But a `return` brings one as well, which leaves the
condition empty and the step with a semicolon in it; and a loop, whose body is always printed
between braces, ends at a brace before the semicolon.

So of the loops over simple expressions just those are read back in which every header begins with
nothing, a binding or an expression; the text of any other one has an error.
-/

namespace Scriptlet

/-! ## Simple trees

Operators, bindings, returns and loops: every way to begin a loop header is among them, and loops
can stand in loop headers. -/

/-- The expression is built of names, integers and booleans by prefix and infix operators. -/
inductive Expr.IsSimple : Expr → Prop
  | ident (x : String) : Expr.IsSimple (.ident x)
  | integer (n : Int64) : Expr.IsSimple (.integer n)
  | boolean (b : Bool) : Expr.IsSimple (.boolean b)
  | unary (op : PrefixOp) {e : Expr} : Expr.IsSimple e → Expr.IsSimple (.unary op e)
  | binary (op : InfixOp) {l r : Expr} : Expr.IsSimple l → Expr.IsSimple r →
    Expr.IsSimple (.binary op l r)

/-- A statement over simple expressions, no block by itself, in which each loop guards at most one
statement. -/
inductive Statement.IsSimple : Statement → Prop
  | bind (x : String) {e : Expr} : e.IsSimple → Statement.IsSimple (.bind x e)
  | ret {e : Expr} : e.IsSimple → Statement.IsSimple (.ret e)
  | expr {e : Expr} : e.IsSimple → Statement.IsSimple (.expr e)
  | loop {init : Option Statement} {condition step : Option Expr} {b : Block} :
    (∀ s ∈ init, Statement.IsSimple s) → (∀ e ∈ condition, e.IsSimple) →
    (∀ e ∈ step, e.IsSimple) → b.length ≤ 1 → (∀ s ∈ b, Statement.IsSimple s) →
    Statement.IsSimple (.loop init condition step b)

/-- As the first clause of a loop header, the statement is printed with one semicolon behind it. -/
def Statement.isHeader : Statement → Bool
  | .bind _ _ | .expr _ => true
  | .ret _ | .block _ | .loop _ _ _ _ => false

/-- Every loop header in the statement begins with nothing, a binding or an expression. -/
inductive Statement.PlainHeaders : Statement → Prop
  | bind (x : String) (e : Expr) : Statement.PlainHeaders (.bind x e)
  | ret (e : Expr) : Statement.PlainHeaders (.ret e)
  | expr (e : Expr) : Statement.PlainHeaders (.expr e)
  | loop {init : Option Statement} (condition step : Option Expr) {b : Block} :
    (∀ s ∈ init, s.isHeader) → (∀ s ∈ b, Statement.PlainHeaders s) →
    Statement.PlainHeaders (.loop init condition step b)

/-- A binding or an expression has no header in it. -/
theorem Statement.PlainHeaders.of_isHeader {s : Statement} (h : s.isHeader) : s.PlainHeaders := by
  cases s with
  | bind x e => exact .bind x e
  | expr e => exact .expr e
  | ret | block | loop => cases h

/-! ## The text of a simple tree

A simple expression is printable, so the text of any simple statement is lexed into its words.  The
headers matter only for what is read from there. -/

/-- A simple expression that can have been read is printable. -/
theorem Expr.IsSimple.isPrintable {e : Expr} (h : e.IsSimple) (hwell : e.WellFormed) :
    e.isPrintable := by
  induction h with
  | ident x =>
    cases hwell with
    | ident hx => exact isPrintable_ident.mpr hx
  | integer n =>
    cases hwell with
    | integer hn => exact isPrintable_integer.mpr (Int64.le_iff_toInt_le.mpr hn)
  | boolean b => rfl
  | unary op _ ih =>
    cases hwell with
    | unary _ he => exact ih he
  | binary op _ _ ihl ihr =>
    cases hwell with
    | binary _ hl hr =>
      rw [Expr.isPrintable, Bool.and_eq_true]
      exact ⟨ihl hl, ihr hr⟩

theorem Expr.IsSimple.spells {e : Expr} (h : e.IsSimple) (hwell : e.WellFormed) :
    Spells e.render e.words :=
  spells_render.expression e (h.isPrintable hwell)

/-- The text of a simple expression is not taken for a block: it would be lexed into a brace. -/
theorem Expr.IsSimple.beginsWith {e : Expr} (h : e.IsSimple) (hwell : e.WellFormed) :
    e.beginsWith "\x7b\x7d" = false := by
  refine Bool.eq_false_iff.mpr fun hbegins => ?_
  obtain ⟨cs, hcs⟩ := List.isPrefixOf_iff_prefix.mp hbegins
  have hwords := h.spells hwell [] rfl
  have hbrace : e.render.toList ++ [] = '\x7b' :: '\x7d' :: cs := by simp [← hcs]
  rw [hbrace, wordsOf_leftBrace, wordsOf_nil, List.append_nil] at hwords
  cases h with
  | boolean b => cases b <;> simp [Expr.words] at hwords
  | ident | integer | unary | binary => simp [Expr.words] at hwords

/-- And its words are read as it, before whatever may carry it on. -/
theorem Expr.IsSimple.resumes {e : Expr} (h : e.IsSimple) (hwell : e.WellFormed) : Resumes e :=
  rereads_words.expression e (h.isPrintable hwell)

/-- **The text of a simple statement is lexed into its words**, whatever its headers are. -/
theorem Statement.IsSimple.spells {s : Statement} (h : s.IsSimple) (hwell : s.WellFormed) :
    Spells s.render s.words := by
  induction h with
  | bind x he =>
    cases hwell with
    | bind hx hwell => exact spells_bind hx (he.spells hwell)
  | ret he =>
    cases hwell with
    | ret hwell => exact spells_ret (he.spells hwell)
  | expr he =>
    cases hwell with
    | expr hwell => exact he.spells hwell
  | loop _ hcondition hstep _ _ ihinit ihb =>
    cases hwell with
    | loop hwinit _ hwcondition hwstep hwb =>
      exact spells_loop (fun s hs => ihinit s hs (hwinit s hs))
        (fun e he => (hcondition e he).spells (hwcondition e he))
        (fun e he => (hstep e he).spells (hwstep e he)) fun s hs => ihb s hs (hwb s hs)

/-! ## Plain headers are read back

A header that begins with nothing, a binding or an expression is printed with just the two
semicolons that the parser asks for. -/

/-- A plain first clause that is printable is so where it stands. -/
theorem printableInit_of_isHeader {init : Option Statement} (hheader : ∀ s ∈ init, s.isHeader)
    (h : ∀ s ∈ init, s.isPrintable) : printableInit init := by
  cases init with
  | none => rfl
  | some s =>
    have hs := h s rfl
    have hheader := hheader s rfl
    cases s with
    | bind | expr => exact hs
    | ret | block | loop => cases hheader

/-- A single statement has none to be separate from. -/
theorem separate_of_length_le {b : List Statement} (h : b.length ≤ 1) : separate b := by
  match b with
  | [] => rfl
  | [.bind _ _] | [.ret _] | [.expr _] | [.block _] | [.loop _ _ _ _] => rfl

/-- **A simple statement with plain headers is printable.** -/
theorem Statement.IsSimple.isPrintable {s : Statement} (h : s.IsSimple) (hwell : s.WellFormed)
    (hplain : s.PlainHeaders) : s.isPrintable := by
  -- By induction on the simple statement; the two other premises are taken apart along with it.
  induction h with
  | bind x he =>
    cases hwell with
    | bind hx hwell =>
      rw [Statement.isPrintable, Bool.and_eq_true]
      exact ⟨decide_eq_true hx, he.isPrintable hwell⟩
  | ret he =>
    cases hwell with
    | ret hwell => exact he.isPrintable hwell
  | expr he =>
    cases hwell with
    | expr hwell =>
      rw [Statement.isPrintable, he.beginsWith hwell, Bool.not_false, Bool.and_true]
      exact he.isPrintable hwell
  | loop _ hcondition hstep hlength _ ihinit ihb =>
    cases hwell with
    | loop hwinit _ hwcondition hwstep hwb =>
      cases hplain with
      | loop _ _ hheader hpb =>
        have hinit := printableInit_of_isHeader hheader fun s hs =>
          ihinit s hs (hwinit s hs) (.of_isHeader (hheader s hs))
        simp only [Statement.isPrintable, Bool.and_eq_true, printableStatements_iff,
          printableOption_iff]
        exact ⟨⟨⟨⟨hinit, fun e he => (hcondition e he).isPrintable (hwcondition e he)⟩,
          fun e he => (hstep e he).isPrintable (hwstep e he)⟩, separate_of_length_le hlength⟩,
          fun s hs => ihb s hs (hwb s hs) (hpb s hs)⟩

/-! ## What is read back has plain headers

What begins with the words of a loop header can be read in one way only.  After a `return` this
leaves a semicolon for the step, and after a loop there is no semicolon to stop at. -/

variable {rest ws w w₁ w₂ w₃ : List Word} {init : Option Statement} {condition step : Option Expr}
  {b : Block}

/-- A loop header is read from its first clause on up to its closing parenthesis. -/
def ReadsHeader (ws w : List Word) : Prop := ∃ init condition step w₁ w₂,
  Reads (.loopInit init) ws w₁ ∧ Reads (.loopClause .semicolon condition) w₁.tail w₂ ∧
    Reads (.loopClause .rightParen step) w₂.tail w

/-- What is read from `for` on is a loop. -/
theorem Reads.of_for {s : Statement} (h : Reads (.statement s) ws w)
    (hfor : firstKind ws = .forWord) :
    ∃ b w₁, ReadsHeader ws.tail.tail w₁ ∧ Reads (.body b) w₁.tail w := by
  cases h with
  | loop _ _ hinit hcondition hstep hb =>
    exact ⟨_, _, ⟨_, _, _, _, _, hinit, hcondition, hstep⟩, hb⟩
  | bind h | ret h | blockStatement h => simp [hfor] at h
  | expr _ he =>
    have hstarts := he.starts_expression
    rw [hfor] at hstarts
    cases hstarts

/-- A clause of a loop header is closed by one kind of word. -/
theorem Reads.close_unique {close close' : TokenKind} {e e' : Option Expr}
    (h : Reads (.loopClause close e) ws w₁) (h' : Reads (.loopClause close' e') ws w₂)
    (hclose : startsExpression close = false) (hclose' : startsExpression close' = false)
    (hws : OfTokens ws) : close = close' := by
  cases h with
  | noClause h =>
    cases h' with
    | noClause h' => exact h.symm.trans h'
    | loopClause _ he' _ =>
      have hstarts := he'.starts_expression
      rw [h, hclose] at hstarts
      cases hstarts
  | loopClause _ he h =>
    cases h' with
    | noClause h' =>
      have hstarts := he.starts_expression
      rw [h', hclose'] at hstarts
      cases hstarts
    | loopClause _ he' h' =>
      obtain ⟨-, rfl⟩ := he.expression_unique he' hws
      exact h.symm.trans h'

/-! ### Headers -/

/-- The words of a loop header, without its opening parenthesis, and what is behind it. -/
def headerWords (init : Option Statement) (condition step : Option Expr) (ws : List Word) :
    List Word :=
  initWords init ++ (optionWords condition ++ .sign .semicolon ::
    (optionWords step ++ .sign .rightParen :: ws))

/-- The words of a loop begin with its header. -/
theorem loop_words_append (init : Option Statement) (condition step : Option Expr) (b : Block)
    (rest : List Word) : (Statement.loop init condition step b).words ++ rest =
      .sign .forWord :: .sign .leftParen ::
        headerWords init condition step (bracedWords (statementsWords b) ++ rest) := by
  simp [Statement.words, headerWords]

/-- What is behind a header is behind its words. -/
theorem suffix_headerWords (init : Option Statement) (condition step : Option Expr)
    (ws : List Word) : ws <:+ headerWords init condition step ws :=
  (List.suffix_cons _ _).trans ((List.suffix_append _ _).trans ((List.suffix_cons _ _).trans
    ((List.suffix_append _ _).trans (List.suffix_append _ _))))

/-- The condition of a loop header, up to its semicolon. -/
theorem reads_condition (h : printableOption condition) (ws : List Word) :
    Reads (.loopClause .semicolon condition) (optionWords condition ++ .sign .semicolon :: ws)
      (.sign .semicolon :: ws) :=
  reads_loopClause h (fun e _ => rereads_words.expression e) rfl rfl rfl

/-- The step of a loop header, up to its parenthesis. -/
theorem reads_step (h : printableOption step) (ws : List Word) :
    Reads (.loopClause .rightParen step) (optionWords step ++ .sign .rightParen :: ws)
      (.sign .rightParen :: ws) :=
  reads_loopClause h (fun e _ => rereads_words.expression e) rfl rfl rfl

/-- A printable header is read up to what is behind it, and in no other way. -/
theorem ReadsHeader.tail_eq (h : ReadsHeader (headerWords init condition step ws) w)
    (hws : OfTokens (headerWords init condition step ws)) (hinit : printableInit init)
    (hcondition : printableOption condition) (hstep : printableOption step) : w.tail = ws := by
  obtain ⟨_, _, _, w₁, w₂, hi, hc, hs⟩ := h
  have hfirst := reads_loopInit hinit (fun s _ => rereads_words.statement s) (optionWords condition
    ++ .sign .semicolon :: (optionWords step ++ .sign .rightParen :: ws))
  obtain ⟨-, rfl⟩ := hi.loopInit_unique hfirst hws
  have hws := hws.suffix (List.suffix_append _ _)
  obtain ⟨-, rfl⟩ := hc.loopClause_unique (reads_condition hcondition _) hws
  have hws := hws.suffix ((List.suffix_cons _ _).trans (List.suffix_append _ _))
  obtain ⟨-, rfl⟩ := hs.loopClause_unique (reads_step hstep _) hws
  rfl

/-- A header that begins with a `return` has a semicolon where its step should end. -/
theorem ReadsHeader.not_ret {e : Expr}
    (h : ReadsHeader (headerWords (some (.ret e)) condition step ws) w)
    (hws : OfTokens (headerWords (some (.ret e)) condition step ws)) (he : Resumes e)
    (hcondition : printableOption condition) : False := by
  obtain ⟨_, _, _, w₁, w₂, hi, hc, hs⟩ := h
  have hread := reads_ret he (.sign .semicolon :: (optionWords condition ++
    .sign .semicolon :: (optionWords step ++ .sign .rightParen :: ws)))
  have hfirst := Reads.init (by simp [Statement.words]) hread rfl
  have hwords : (Statement.ret e).words ++ .sign .semicolon :: (optionWords condition ++
      .sign .semicolon :: (optionWords step ++ .sign .rightParen :: ws)) =
        headerWords (some (.ret e)) condition step ws := by
    simp [headerWords, initWords]
  rw [hwords] at hfirst
  obtain ⟨-, rfl⟩ := hi.loopInit_unique hfirst hws
  have hws := hws.suffix (List.suffix_append _ _)
  -- The second semicolon of the first clause is taken for the end of an empty condition.
  cases hc with
  | loopClause h => exact h rfl
  | noClause =>
    have hclose := (reads_condition hcondition _).close_unique hs rfl rfl hws
    cases hclose

/-! ### Loops -/

/-- Only with plain headers do the words of the statement begin what is read as a statement; and
what is read from the words of a loop on ends at a brace. -/
def Exacting (s : Statement) : Prop :=
  ∀ s' rest w, OfTokens (s.words ++ rest) → Reads (.statement s') (s.words ++ rest) w →
    s.PlainHeaders ∧ (firstKind s.words = .forWord → firstKind w = .rightBrace)

/-- A header that is read begins with nothing, a binding or an expression. -/
theorem ReadsHeader.isHeader {s : Statement}
    (h : ReadsHeader (headerWords (some s) condition step ws) w)
    (hws : OfTokens (headerWords (some s) condition step ws)) (hsimple : s.IsSimple)
    (hwell : s.WellFormed) (hexacting : Exacting s) (hcondition : printableOption condition) :
    s.isHeader := by
  cases hsimple with
  | bind | expr => rfl
  | ret he =>
    cases hwell with
    | ret hwell => exact (h.not_ret hws (he.resumes hwell) hcondition).elim
  | loop =>
    obtain ⟨_, _, _, w₁, w₂, hi, -⟩ := h
    cases hi with
    | noInit h => simp [headerWords, initWords, Statement.words] at h
    | init _ hread hsemicolon =>
      simp only [headerWords, initWords, List.append_assoc] at hread hws
      have hbrace := (hexacting _ _ _ hws hread).2 rfl
      rw [hsemicolon] at hbrace
      cases hbrace

/-- Of a body that is read, the one statement is read. -/
theorem plainHeaders_of_reads {s : Statement} {b' : Block} {close : TokenKind}
    (hclose : close ≠ .forWord) (hsimple : s.IsSimple) (hexacting : Exacting s)
    (hws : OfTokens (s.words ++ rest)) (h : Reads (.statements close b') (s.words ++ rest) w) :
    s.PlainHeaders := by
  cases hsimple with
  | bind x => exact .bind x _
  | ret => exact .ret _
  | expr => exact .expr _
  | loop =>
    cases h with
    | noStatements h => exact absurd h.symm hclose
    | statements h _ => exact (hexacting _ _ _ hws h).1

/-- A body that is read has plain headers in it, and ends at its brace. -/
theorem ends_of_reads_body {b' : Block} (hlength : b.length ≤ 1)
    (hb : ∀ s ∈ b, s.IsSimple ∧ Exacting s)
    (hws : OfTokens (bracedWords (statementsWords b) ++ rest))
    (h : Reads (.body b') (bracedWords (statementsWords b) ++ rest) w) :
    (∀ s ∈ b, s.PlainHeaders) ∧ firstKind w = .rightBrace := by
  cases h with
  | single h => exact absurd rfl h
  | braced _ h =>
    cases h with
    | block hread =>
      refine ⟨fun s hs => ?_, hread.closed⟩
      obtain ⟨hsimple, hexacting⟩ := hb s hs
      obtain rfl : b = [s] := by
        match b, hlength, hs with
        | [_], _, hs => rw [List.mem_singleton.mp hs]
      have hwords : (bracedWords (statementsWords [s]) ++ rest).tail =
          s.words ++ .sign .rightBrace :: rest := by
        simp [bracedWords, statementsWords]
      have hws := hws.suffix (List.tail_suffix _)
      rw [hwords] at hread hws
      exact plainHeaders_of_reads (by decide) hsimple hexacting hws hread

/-- **Simple statements are exacting**: by induction, with the header of a loop first. -/
theorem Statement.IsSimple.exacting {s : Statement} (h : s.IsSimple) (hwell : s.WellFormed) :
    Exacting s := by
  induction h with
  | bind x => exact fun _ _ _ _ _ => ⟨.bind x _, fun hfor => by cases hfor⟩
  | ret => exact fun _ _ _ _ _ => ⟨.ret _, fun hfor => by cases hfor⟩
  | @expr e he =>
    cases hwell with
    | expr hwell =>
      refine fun _ _ _ _ _ => ⟨.expr _, fun hfor => ?_⟩
      have hstarts := (e.begins (he.isPrintable hwell)).starts
      rw [Statement.words] at hfor
      rw [hfor] at hstarts
      cases hstarts
  | @loop init condition step b hinit hcondition hstep hlength hb ihinit ihb =>
    cases hwell with
    | loop hwinit hwblock hwcondition hwstep hwb =>
      intro s' rest w hws hread
      have hpcondition := printableOption_iff.mpr fun e he =>
        (hcondition e he).isPrintable (hwcondition e he)
      have hpstep := printableOption_iff.mpr fun e he => (hstep e he).isPrintable (hwstep e he)
      rw [loop_words_append] at hws hread
      obtain ⟨b', w₁, hread, hbody⟩ := hread.of_for rfl
      have hws := hws.suffix ((List.suffix_cons _ _).trans (List.suffix_cons _ _))
      -- The header comes first: unless it is printable, nothing says where the body begins.
      have hheader : ∀ s ∈ init, s.isHeader := by
        rintro s rfl
        exact hread.isHeader hws (hinit s rfl) (hwinit s rfl) (ihinit s rfl (hwinit s rfl))
          hpcondition
      have hpinit := printableInit_of_isHeader hheader fun s hs =>
        (hinit s hs).isPrintable (hwinit s hs) (.of_isHeader (hheader s hs))
      rw [hread.tail_eq hws hpinit hpcondition hpstep] at hbody
      have hws := hws.suffix (suffix_headerWords _ _ _ _)
      obtain ⟨hplain, hbrace⟩ := ends_of_reads_body hlength
        (fun s hs => ⟨hb s hs, ihb s hs (hwb s hs)⟩) hws hbody
      exact ⟨.loop condition step hheader hplain, fun _ => hbrace⟩

/-- **The text of a simple statement of a program, so of a loop, is read back just if its headers
are plain.**  If they are, it is read without errors as the program of that one statement; if they
are not, there is an error. -/
theorem simple_reread (source : String) (s : Statement)
    (hoccurs : (parse source).program.Contains s) (hsimple : s.IsSimple) :
    (s.PlainHeaders → parse s.render = ⟨[s], []⟩) ∧
      (¬ s.PlainHeaders → (parse s.render).errors ≠ []) := by
  have hwell := hoccurs.wellFormed (parse_wellFormed source)
  refine ⟨fun hplain => parse_render_statement (hsimple.isPrintable hwell hplain),
    fun hplain herrors => hplain ?_⟩
  have hwords : wordsOf s.render.toList = s.words ++ [] := by
    have hspells := hsimple.spells hwell [] rfl
    rwa [List.append_nil, wordsOf_nil] at hspells
  obtain ⟨ws', hread⟩ := reads_of_parseStream rfl herrors
  have hread : Reads (.statements .endOfInput (parse s.render).program)
    (wordsOf s.render.toList) ws' := hread
  have hws : OfTokens (wordsOf s.render.toList) := ⟨_, rfl⟩
  rw [hwords] at hread hws
  exact plainHeaders_of_reads (by decide) hsimple (hsimple.exacting hwell) hws hread

/-- `for (a; a; ) { a }` -/
def plainLoop : Statement :=
  .loop (some (.expr (.ident "a"))) (some (.ident "a")) none [.expr (.ident "a")]

/-- That loop, in the body of a function. -/
theorem simple_reread_plainLoop :
    (parse "fn(a) \x7b for (a; a; ) a \x7d").program.Contains plainLoop ∧
      parse plainLoop.render = ⟨[plainLoop], []⟩ := by
  have hprogram : (parse "fn(a) \x7b for (a; a; ) a \x7d").program =
      [.expr (.function [⟨"a", false⟩] [plainLoop])] := by
    decide +kernel
  have hoccurs : (parse "fn(a) \x7b for (a; a; ) a \x7d").program.Contains plainLoop := by
    rw [hprogram]
    refine ⟨_, List.mem_singleton_self _, ?_⟩
    exact .head (List.mem_singleton_self _) (.single (List.mem_singleton_self _))
  have ha := Expr.IsSimple.ident "a"
  have hbody : ∀ s ∈ [Statement.expr (.ident "a")], s.IsSimple := by simpa using .expr ha
  refine ⟨hoccurs, (simple_reread _ _ hoccurs ?_).1 ?_⟩
  · exact .loop (by simpa using .expr ha) (by simpa using ha) (by simp) (by decide) hbody
  · exact .loop _ _ (by simp [Statement.isHeader]) (by simpa using .expr _)

/-- `for (return a; b; c) { }` -/
def returningLoop : Statement :=
  .loop (some (.ret (.ident "a"))) (some (.ident "b")) (some (.ident "c")) []

/-- `for (for (; ; ) a; b; c) { }` -/
def loopingLoop : Statement :=
  .loop (some (.loop none none none [.expr (.ident "a")])) (some (.ident "b"))
    (some (.ident "c")) []

/-- These two loops are read without errors, and their texts are not. -/
theorem loops_not_reread :
    ((parse "for (return a; b; c) \x7b\x7d").program = [returningLoop] ∧
      (parse "for (return a; b; c) \x7b\x7d").errors = [] ∧ returningLoop.IsSimple ∧
      (parse returningLoop.render).errors ≠ []) ∧
    ((parse "for (for (;;) a; b; c) \x7b\x7d").program = [loopingLoop] ∧
      (parse "for (for (;;) a; b; c) \x7b\x7d").errors = [] ∧ loopingLoop.IsSimple ∧
      (parse loopingLoop.render).errors ≠ []) := by
  have hloop (init : Statement) (hinit : init.IsSimple) :
      (Statement.loop (some init) (some (.ident "b")) (some (.ident "c")) []).IsSimple :=
    .loop (by simpa using hinit) (by simpa using .ident "b") (by simpa using .ident "c") (by simp)
      (by simp)
  refine ⟨⟨by decide +kernel, by decide +kernel, ?_, by decide +kernel⟩,
    ⟨by decide +kernel, by decide +kernel, ?_, by decide +kernel⟩⟩
  · exact hloop _ (.ret (.ident "a"))
  · exact hloop _ (.loop (by simp) (by simp) (by simp) (by simp)
      (by simpa using .expr (.ident "a")))

end Scriptlet
