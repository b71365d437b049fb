/-!
# Places in a text

Lines and columns count from one, columns in characters, and only a line feed ends a line.
Positions in trees made by hand may hold any integers.
-/

namespace SumCalc

/-- A place in a text. -/
structure Position where
  line : Int
  column : Int
deriving DecidableEq, Repr, Inhabited

namespace Position

/-- The place of the first character. -/
def start : Position := ⟨1, 1⟩

/-- The place after a character that stands at a place. -/
def after (place : Position) (c : Char) : Position :=
  if c = '\n' then ⟨place.line + 1, 1⟩ else ⟨place.line, place.column + 1⟩

/-- The place after a text that begins at a place. -/
def afterAll (place : Position) (cs : List Char) : Position := cs.foldl after place

@[simp]
theorem afterAll_nil (place : Position) : place.afterAll [] = place := rfl

@[simp]
theorem afterAll_cons (place : Position) (c : Char) (cs : List Char) :
    place.afterAll (c :: cs) = (place.after c).afterAll cs := rfl

theorem afterAll_append (place : Position) (front back : List Char) :
    place.afterAll (front ++ back) = (place.afterAll front).afterAll back := by
  simp [afterAll]

end Position

end SumCalc
