import BinaryLayout.LR.Production
import BinaryLayout.Source.Location

/-!
# Tokens and parse trees

A parser reads tokens and builds a tree: its leaves are the tokens, and an inner node is a
production whose right side is made up by the children.  The location of a node spans those of
its children; a node without any source text has none.
-/

namespace BinaryLayout.LR

/-- A terminal with the text that it was read from. -/
structure Token where
  symbol : String
  text : String
  location : Option Location := none
deriving DecidableEq

/-- An element of the input: a token, or in an example of an error the wildcard that stands for
any token. -/
inductive Lexeme where
  | token (t : Token)
  | wildcard
deriving DecidableEq

/-- The terminal of an element of the input; the wildcard matches none. -/
def Lexeme.symbol? : Lexeme → Option String
  | .token t => some t.symbol
  | .wildcard => none

inductive Tree where
  | leaf (token : Token)
  | node (production : Production) (children : List Tree) (location : Option Location)

namespace Tree

def symbol : Tree → String
  | .leaf token => token.symbol
  | .node production _ _ => production.lhs

/-- The source text that a tree was built from. -/
def location : Tree → Option Location
  | .leaf token => token.location
  | .node _ _ location => location

mutual

def tokens : Tree → List Token
  | .leaf token => [token]
  | .node _ children _ => tokensOfAll children

def tokensOfAll : List Tree → List Token
  | [] => []
  | tree :: rest => tree.tokens ++ tokensOfAll rest

end

end Tree

end BinaryLayout.LR
