import Scriptlet.Syntax.Parser

/-!
# Proofs/Parse/Word — what reading sees of a token

Reading without errors looks at kinds, at the text of names and strings and at the value of
integers, never at a span.  A `Word` is a token reduced to that.
-/

namespace Scriptlet

/-- A token without its place, an integer by its value. -/
inductive Word where
  | name (text : String)
  | integer (value : Nat)
  | string (text : String)
  /-- A token that is told by its kind. -/
  | sign (kind : TokenKind)
  deriving DecidableEq, Repr

/-- The kind of token that the word is of. -/
def Word.kind : Word → TokenKind
  | name _ => .identifier
  | integer _ => .integer
  | string _ => .string
  | sign kind => kind

/-- What is left of a token. -/
def Token.word (t : Token) : Word :=
  match t.kind with
  | .identifier => .name t.literal
  | .integer => .integer (Parse.decimal t.literal)
  | .string => .string t.literal
  | kind => .sign kind

@[simp] theorem Token.kind_word (t : Token) : t.word.kind = t.kind := by
  unfold Token.word
  split <;> simp_all [Word.kind]

/-! The kind of a token tells the form of its word, and the form of a word the kind of its token. -/

theorem Token.word_of_identifier {t : Token} (h : t.kind = .identifier) :
    t.word = .name t.literal := by
  rw [Token.word, h]

theorem Token.word_of_integer {t : Token} (h : t.kind = .integer) :
    t.word = .integer (Parse.decimal t.literal) := by
  rw [Token.word, h]

theorem Token.word_of_string {t : Token} (h : t.kind = .string) : t.word = .string t.literal := by
  rw [Token.word, h]

theorem Token.of_word_name {t : Token} {x : String} (h : t.word = .name x) :
    t.kind = .identifier ∧ t.literal = x := by
  have hkind : t.kind = .identifier := by rw [← t.kind_word, h, Word.kind]
  rw [t.word_of_identifier hkind] at h
  exact ⟨hkind, Word.name.inj h⟩

theorem Token.of_word_integer {t : Token} {n : Nat} (h : t.word = .integer n) :
    t.kind = .integer ∧ Parse.decimal t.literal = n := by
  have hkind : t.kind = .integer := by rw [← t.kind_word, h, Word.kind]
  rw [t.word_of_integer hkind] at h
  exact ⟨hkind, Word.integer.inj h⟩

theorem Token.of_word_string {t : Token} {x : String} (h : t.word = .string x) :
    t.kind = .string ∧ t.literal = x := by
  have hkind : t.kind = .string := by rw [← t.kind_word, h, Word.kind]
  rw [t.word_of_string hkind] at h
  exact ⟨hkind, Word.string.inj h⟩

/-- The kind of the first word, and the end of input if there is none. -/
def firstKind : List Word → TokenKind
  | [] => .endOfInput
  | w :: _ => w.kind

@[simp] theorem firstKind_nil : firstKind [] = .endOfInput := rfl

@[simp] theorem firstKind_cons (w : Word) (ws : List Word) : firstKind (w :: ws) = w.kind := rfl

@[simp] theorem Word.kind_sign (kind : TokenKind) : (Word.sign kind).kind = kind := rfl

theorem ne_nil_of_firstKind {ws : List Word} (h : firstKind ws ≠ .endOfInput) : ws ≠ [] := by
  rintro rfl
  exact h rfl

/-- The sign of an operator. -/
def PrefixOp.kind : PrefixOp → TokenKind
  | neg => .minus
  | not => .bang

/-- The sign of an operator between two operands. -/
def InfixOp.kind : InfixOp → TokenKind
  | assign => .assign
  | add => .plus
  | sub => .minus
  | mul => .asterisk
  | div => .slash
  | less => .less
  | greater => .greater
  | equal => .equal
  | notEqual => .notEqual

/-- Words of this kind are told by it, and there are such words. -/
def TokenKind.isSign : TokenKind → Bool
  | .identifier | .integer | .string | .endOfInput => false
  | _ => true

/-- A first word that is told by its kind. -/
theorem sign_cons {ws : List Word} {kind : TokenKind} (h : firstKind ws = kind)
    (hkind : kind.isSign) : ws = .sign kind :: ws.tail := by
  subst h
  cases ws with
  | nil => cases hkind
  | cons w ws =>
    cases w with
    | name | integer | string => cases hkind
    | sign => rfl

/-- Signs of operators carry nothing but their kind. -/
theorem PrefixOp.isSign_kind (op : PrefixOp) : op.kind.isSign := by
  cases op <;> rfl

theorem InfixOp.isSign_kind (op : InfixOp) : op.kind.isSign := by
  cases op <;> rfl

/-! ## The operator table

The parser asks a table of every token behind an expression: whether it carries the expression on,
how tightly it binds, and whether it is an operator, a call or an index. -/

/-- How tightly an operator binds. -/
def InfixOp.strength : InfixOp → Precedence
  | assign => .assign
  | add | sub => .sum
  | mul | div => .product
  | less | greater => .comparison
  | equal | notEqual => .equality

section Table

variable {kind : TokenKind} {strength : Precedence} {op : InfixOp}

/-! Read backwards, an entry of the table tells the sign that it is for: one operator, or the
delimiter that opens a call or an index. -/

/-- Every operator is in the table, with its strength. -/
theorem InfixOp.extension_of_kind (op : InfixOp) :
    Extension.of op.kind = some (op.strength, .binary op) := by
  cases op <;> rfl

/-- No operator is taken for the word behind a branch. -/
theorem InfixOp.kind_ne_else (op : InfixOp) : op.kind ≠ .elseWord := by
  cases op <;> decide

theorem InfixOp.kind_of_extension (h : Extension.of kind = some (strength, .binary op)) :
    kind = op.kind := by
  cases kind <;> cases h <;> rfl

theorem InfixOp.strength_of_extension (h : Extension.of kind = some (strength, .binary op)) :
    strength = op.strength := by
  cases kind <;> cases h <;> rfl

theorem kind_of_call (h : Extension.of kind = some (strength, .call)) : kind = .leftParen := by
  cases kind <;> cases h
  rfl

theorem strength_of_call (h : Extension.of kind = some (strength, .call)) : strength = .call := by
  cases kind <;> cases h
  rfl

theorem kind_of_index (h : Extension.of kind = some (strength, .index)) : kind = .leftBracket := by
  cases kind <;> cases h
  rfl

theorem strength_of_index (h : Extension.of kind = some (strength, .index)) :
    strength = .index := by
  cases kind <;> cases h
  rfl

end Table

/-! ## What a reader has before it

The words of a reader are those of its tokens, up to the end of input. -/

namespace ParseState

/-- The words from the position on. -/
def words (s : ParseState) : List Word := s.stream.pending.map Token.word

/-- Past its tokens, the stream reads as the end of input. -/
def Ended (s : ParseState) : Prop := s.stream.stop.kind = .endOfInput

/-- The state at the beginning of a stream. -/
def start (stream : TokenStream) : ParseState := ⟨stream, []⟩

variable {s : ParseState}

theorem length_words (s : ParseState) : s.words.length = s.stream.remaining :=
  List.length_map _

/-- The kind of the current token is that of the first word. -/
theorem kind_current (h : s.Ended) : s.stream.current.kind = firstKind s.words := by
  unfold TokenStream.current words
  cases s.stream.pending with
  | nil => exact h
  | cons t ts => simp

/-- The kind of the next token is that of the second word. -/
theorem kind_upcoming (h : s.Ended) : s.stream.upcoming.kind = firstKind s.words.tail := by
  unfold TokenStream.upcoming words
  rw [← List.map_tail]
  cases s.stream.pending.tail with
  | nil => exact h
  | cons t ts => simp

/-- Unless the input is at its end, the current token is the first word. -/
theorem words_eq_cons (h : s.Ended) (hne : s.stream.current.kind ≠ .endOfInput) :
    s.words = s.stream.current.word :: s.words.tail := by
  unfold TokenStream.current words at *
  cases hp : s.stream.pending with
  | nil => rw [hp] at hne; exact absurd h hne
  | cons t ts => simp

/-- The reader, with one more error. -/
def report (s : ParseState) (e : ParseError) : ParseState := { s with errors := s.errors ++ [e] }

/-- The reader, one token further on. -/
def next (s : ParseState) : ParseState := { s with stream := s.stream.advance }

end ParseState

/-! ## One statement after another

The parser passes a token between two statements, which is the last one of the first statement. -/

namespace Parse

variable {closes : TokenKind → Bool} {s : ParseState}

/-- At a token that closes the list, nothing is read. -/
theorem statements_of_closes (hc : closes s.stream.current.kind) (p : Parse Statement) (n : Nat) :
    statements closes p n s = (some [], s) := by
  cases n with
  | zero => rfl
  | succ n =>
    simp only [statements, bind_apply, current, hc, if_true]
    rfl

/-- Whatever is read, statements are the result. -/
theorem statements_isSome (closes : TokenKind → Bool) (p : Parse Statement) (n : Nat)
    (s : ParseState) : (statements closes p n s).1.isSome := by
  induction n generalizing s with
  | zero => rfl
  | succ n ih =>
    simp only [statements, bind_apply, current]
    split
    · rfl
    · have hrest := ih (p s).2.next
      simp only [bind_apply, attempt, advance]
      rcases hn : statements closes p n (p s).2.next with ⟨_ | b, s'⟩
      · rw [hn] at hrest
        cases hrest
      · rw [ParseState.next] at hn
        rw [hn]
        rfl

/-- A statement is read and a token passed, then the others are read. -/
theorem statements_of_open (hc : closes s.stream.current.kind = false) (p : Parse Statement)
    (n : Nat) : statements closes p (n + 1) s =
      Prod.map (Option.map ((p s).1.toList ++ ·)) id (statements closes p n (p s).2.next) := by
  simp only [statements, bind_apply, current, hc, Bool.false_eq_true, if_false, attempt, advance]
  rcases hrest : statements closes p n (p s).2.next with ⟨_ | b, s'⟩
  all_goals
    rw [ParseState.next] at hrest
    rw [hrest]
    rfl

/-- A block is the statements behind its opening brace, and its end. -/
theorem block_eq (inner : Phrases) : block inner =
    (advance >>= fun _ => remaining >>= statements endsBlock inner.statement) >>= fun b =>
      blockEnd >>= fun _ => pure b := by
  simp only [block, bind_assoc]

end Parse

end Scriptlet
