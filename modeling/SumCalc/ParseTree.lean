import SumCalc.Token

/-!
# Parse trees

A parse tree has rules with names at its inner nodes and tokens or bare texts at its leaves. Trees
read from a source have the rules `root`, `sum` and `primitive` and keep every token; trees made by
hand may have any names and any children.
-/

namespace SumCalc

/-- A parse tree. -/
inductive ParseTree
  | rule (name : String) (children : List ParseTree)
  | token (kind lexeme : String) (place : Position)
  | text (content : String)
deriving Repr, Inhabited

namespace ParseTree

/-- The name of a rule, the kind of a token, or a bare text itself. -/
def label : ParseTree → String
  | rule name _ => name
  | token kind _ _ => kind
  | text content => content

/-- The leaf that a token of a source makes. -/
def leaf (token : Token) : ParseTree := .token token.terminal.name token.text token.place

/-- The rules among some trees, each as its name and its children. -/
def branches : List ParseTree → List (String × List ParseTree)
  | [] => []
  | rule name children :: rest => (name, children) :: branches rest
  | _ :: rest => branches rest

/-- The text and the place of the first number among some trees. -/
def firstNumber? : List ParseTree → Option (String × Position)
  | [] => none
  | token kind lexeme place :: rest =>
      if kind = Terminal.number.name then some (lexeme, place) else firstNumber? rest
  | _ :: rest => firstNumber? rest

mutual

/-- The number of nodes of a tree. -/
def size : ParseTree → Nat
  | rule _ children => sizeAll children + 1
  | token .. => 1
  | text _ => 1

/-- The number of nodes of some trees. -/
def sizeAll : List ParseTree → Nat
  | [] => 0
  | tree :: rest => size tree + sizeAll rest

end

theorem size_pos (tree : ParseTree) : 0 < tree.size := by
  cases tree <;> simp [size]

/-- The number of nodes of rules with the given children. -/
def sizeEach : List (List ParseTree) → Nat
  | [] => 0
  | children :: rest => sizeAll children + 1 + sizeEach rest

/-- The rules among some trees have no more nodes than the trees. -/
theorem sizeEach_branches_le (trees : List ParseTree) :
    sizeEach ((branches trees).map Prod.snd) ≤ sizeAll trees := by
  induction trees with
  | nil => simp [branches, sizeEach]
  | cons tree rest ih =>
      cases tree with
      | rule name children => simp only [branches, List.map_cons, sizeEach, sizeAll, size]; omega
      | token kind lexeme place => simp only [branches, sizeAll]; omega
      | text content => simp only [branches, sizeAll]; omega

mutual

/-- The nodes of a tree whose root lies at `depth`, each before its children and with its own
depth, followed by `rest`. -/
def preorderOnto (depth : Nat) : ParseTree → List (Nat × ParseTree) → List (Nat × ParseTree)
  | rule name children, rest =>
      (depth, rule name children) :: preorderAllOnto (depth + 1) children rest
  | token kind lexeme place, rest => (depth, token kind lexeme place) :: rest
  | text content, rest => (depth, text content) :: rest

/-- The nodes of trees that stand side by side, followed by `rest`. -/
def preorderAllOnto (depth : Nat) :
    List ParseTree → List (Nat × ParseTree) → List (Nat × ParseTree)
  | [], rest => rest
  | tree :: trees, rest => preorderOnto depth tree (preorderAllOnto depth trees rest)

end

/-- The nodes of a tree, each before its children and with its distance from the root. -/
def preorder (tree : ParseTree) : List (Nat × ParseTree) := tree.preorderOnto 0 []

mutual

/-- The nodes of a tree that are rules, each after its children. -/
def postorder : ParseTree → List ParseTree
  | rule name children => postorderAll children ++ [rule name children]
  | token .. => []
  | text _ => []

/-- The rules of some trees that stand side by side. -/
def postorderAll : List ParseTree → List ParseTree
  | [] => []
  | tree :: rest => postorder tree ++ postorderAll rest

end

end ParseTree

end SumCalc
