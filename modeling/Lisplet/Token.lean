import Lisplet.Text.Quoted

/-!
# Tokens

A token is a kind and a text. The language has six kinds; codes outside them are kept, so that
token lists from elsewhere can be read and named.
-/

namespace Lisplet

/-- The kind of a token. -/
inductive TokenKind where
  | openParen
  | closeParen
  | string
  | number
  | symbol
  | quote
  /-- A code outside the language's own six. -/
  | other (code : Int)
  deriving DecidableEq, Repr, Inhabited

namespace TokenKind

/-- The kind with a given code. -/
def ofCode : Int → TokenKind
  | 0 => .openParen
  | 1 => .closeParen
  | 2 => .string
  | 3 => .number
  | 4 => .symbol
  | 5 => .quote
  | code => .other code

/-- The name of a kind. -/
def name : TokenKind → String
  | .openParen => "LP"
  | .closeParen => "RP"
  | .string => "STR"
  | .number => "NUM"
  | .symbol => "SYM"
  | .quote => "QTE"
  | .other code => "unknown_token_" ++ toString code

/-- The kind of the language with a given name. -/
def ofName? (name : String) : Option TokenKind :=
  [.openParen, .closeParen, .string, .number, .symbol, .quote].find? (·.name == name)

end TokenKind

/-- A kind and a text. -/
structure Token where
  kind : TokenKind
  text : String
  deriving DecidableEq, Repr, Inhabited

namespace Token

/-- The symbol of a given name. -/
def sym (name : String) : Token := ⟨.symbol, name⟩

/-- The token that opens a list. -/
def opening : Token := ⟨.openParen, "("⟩

/-- The token that closes a list. -/
def closing : Token := ⟨.closeParen, ")"⟩

/-- The kind and the quoted text. -/
def describe (t : Token) : String := t.kind.name ++ " " ++ Text.quote t.text

/-- What a token adds to the number of lists that are open. -/
def nesting (t : Token) : Int :=
  match t.kind with
  | .openParen => 1
  | .closeParen => -1
  | _ => 0

/-- Open minus closed lists, over a list of tokens. -/
def balance : List Token → Int
  | [] => 0
  | t :: ts => t.nesting + balance ts

@[simp] theorem balance_nil : balance [] = 0 := rfl

@[simp] theorem balance_cons (t : Token) (ts : List Token) :
    balance (t :: ts) = t.nesting + balance ts := rfl

theorem balance_append (ts us : List Token) : balance (ts ++ us) = balance ts + balance us := by
  induction ts with
  | nil => simp
  | cons t ts ih => simp [ih, Int.add_assoc]

@[simp] theorem balance_reverse (ts : List Token) : balance ts.reverse = balance ts := by
  induction ts with
  | nil => rfl
  | cons t ts ih => simp [balance_append, ih, Int.add_comm]

end Token

end Lisplet
