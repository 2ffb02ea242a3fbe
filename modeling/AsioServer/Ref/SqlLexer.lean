import AsioServer.Ref.Memory

/-!
# Which question marks are parameters

MySQL takes a question mark of a statement for a parameter where its lexer is not
inside a string, a quoted name or a comment. The lexer is given by its states,
which leaves the SQL mode and the character set open (`SqlLexer`); `mysqlLexer` is
the one of the default mode. The comments whose text is executed are left out.
-/

namespace AsioServer

def questionMark : UInt8 := 63

structure SqlLexer where
  State : Type
  start : State
  step : State → UInt8 → State
  /-- A question mark is a parameter here. -/
  live : State → Bool

namespace SqlLexer

variable (L : SqlLexer)

def run (q : L.State) (s : Bytes) : L.State := s.foldl L.step q

/-- The question marks that are parameters. -/
def params : L.State → Bytes → Nat
  | _, [] => 0
  | q, c :: s => (if L.live q && c == questionMark then 1 else 0) + params (L.step q c) s

/-- `mysql_stmt_param_count`. -/
def paramCount (sql : Bytes) : Nat := L.params L.start sql

end SqlLexer

/-! ## The default mode -/

inductive SqlQuote where
  | single
  | double
  | back
  deriving DecidableEq

def SqlQuote.char : SqlQuote → UInt8
  | .single => 39
  | .double => 34
  | .back => 96

/-- Where the lexer is: outside of everything, in quotes, behind a backslash there, behind
characters that may open a comment, in a comment to the end of the line, in one to `*/`, behind
an asterisk there. -/
inductive SqlState where
  | plain
  | quoted (q : SqlQuote)
  | escaped (q : SqlQuote)
  | dash
  | dashes
  | slash
  | line
  | comment
  | star
  deriving DecidableEq

def SqlState.opens (c : UInt8) : SqlState :=
  if c = 39 then .quoted .single
  else if c = 34 then .quoted .double
  else if c = 96 then .quoted .back
  else if c = 35 then .line
  else if c = 45 then .dash
  else if c = 47 then .slash
  else .plain

/-- A doubled quote closes and opens. -/
def SqlState.next : SqlState → UInt8 → SqlState
  | .plain, c => .opens c
  | .quoted q, c =>
      if c = q.char then .plain else if c = 92 ∧ q ≠ .back then .escaped q else .quoted q
  | .escaped q, _ => .quoted q
  | .dash, c => if c = 45 then .dashes else .opens c
  | .dashes, c =>
      if c = 45 then .dashes else if c = 10 then .plain
      else if c ≤ 32 ∨ c = 127 then .line else .opens c
  | .slash, c => if c = 42 then .comment else .opens c
  | .line, c => if c = 10 then .plain else .line
  | .comment, c => if c = 42 then .star else .comment
  | .star, c => if c = 47 then .plain else if c = 42 then .star else .comment

def SqlState.live : SqlState → Bool
  | .plain | .dash | .dashes | .slash => true
  | _ => false

def mysqlLexer : SqlLexer := ⟨SqlState, .plain, SqlState.next, SqlState.live⟩

end AsioServer
