import Mathlib.Logic.Function.Iterate
import Mathlib.Tactic.SplitIfs
import SumCalc.Proofs.Building

/-!
# Sums folded on a stack

A tree can be turned into an expression without recursion on a stack of sums that are part way
through. The innermost of them takes its next addend in each turn. A literal is added at once; a
group puts its own sum on top of the stack; a sum without further addends is taken off, and its
total is added to the one below. Nothing in the stack itself says that such a sum has a total;
`Abort` names what could happen otherwise.

`Folding.outcome` says by recursion what is going to come of a stack, every suspended sum with its
pending addends included. A turn does not change it and leaves less work, so the turns end with it.

Results:
1. `outcome_turn`, `safe_turn`, `work_turn`: what one turn preserves, and that work gets less.
2. `turns_eq`: the turns end with the outcome of the stack.
3. `PlainRecursion.unique`: the equations of the plain recursion have one solution.
4. `toExpr_recursive`: on every tree, however it is made, the expression or the first failure is
   that of the plain recursion, and the turns come to it.
-/

namespace SumCalc.ParseTree

/-! ## The stack -/

/-- A sum part way through: its addends, how many of them were taken, and the sum of those that were
added. -/
structure PartialSum where
  operands : List (List ParseTree)
  taken : Nat
  total : Option Expr

/-- Why the turns end without an expression. -/
inductive Abort
  | refused (failure : Failure)
  /-- A sum has no further addends, and none was added. -/
  | noTotal

namespace PartialSum

/-- The addends that were not taken yet. -/
def pending (sum : PartialSum) : List (List ParseTree) := sum.operands.drop sum.taken

/-- A sum whose next addend is taken. -/
def advance (sum : PartialSum) : PartialSum := { sum with taken := sum.taken + 1 }

/-- A sum to which an expression is added. -/
def add (sum : PartialSum) (e : Expr) : PartialSum :=
  { sum with total := some (match sum.total with
      | none => e
      | some total => .plus total e total.place) }

/-- The sum with the given children before its first addend. -/
def begin? (children : List ParseTree) : Except Failure PartialSum :=
  match addends children with
  | [] => .error (.malformed .emptySum)
  | all => .ok ⟨all, 0, none⟩

/-- The work that a sum still takes. -/
def work (sum : PartialSum) : Nat := sizeEach sum.pending + 1

/-- The work that some sums still take. -/
def workAll : List PartialSum → Nat
  | [] => 0
  | sum :: outer => sum.work + workAll outer

end PartialSum

/-- The sums part way through, or what came of them. -/
inductive Folding
  | running (innermost : PartialSum) (outer : List PartialSum)
  | ended (result : Except Abort Expr)

namespace Folding

/-- Goes on, unless there is a failure. -/
def settle : Except Failure Folding → Folding
  | .ok folding => folding
  | .error failure => .ended (.error (.refused failure))

/-- A sum is taken off, and its total goes to the sum around it. -/
def leave : Option Expr → List PartialSum → Folding
  | none, _ => .ended (.error .noTotal)
  | some total, [] => .ended (.ok total)
  | some total, around :: outer => .running (around.add total) outer

/-- A sum has taken the addend with the given children: a literal is added, a group is begun. -/
def take (width : Width) (children : List ParseTree) (sum : PartialSum) (outer : List PartialSum) :
    Except Failure Folding :=
  match firstNumber? children with
  | some (lexeme, place) => do return .running (sum.add (← Literal.read width lexeme place)) outer
  | none =>
      match grouped? children with
      | some inner => do return .running (← PartialSum.begin? inner) (sum :: outer)
      | none => .error (.malformed .ungrouped)

/-- One turn: the innermost sum takes its next addend or, if there is none, is taken off. -/
def turn (width : Width) : Folding → Folding
  | .ended result => .ended result
  | .running sum outer =>
      match sum.operands[sum.taken]? with
      | none => leave sum.total outer
      | some children => settle (take width children sum.advance outer)

/-- A failure before the first turn. -/
def refuse (failure : Failure) : Folding := .ended (.error (.refused failure))

/-- A stack of one sum, with the given children. -/
def begin (children : List ParseTree) : Folding :=
  settle do return .running (← PartialSum.begin? children) []

/-- The stack before the first turn, for a rule with the given name and children. -/
def start (width : Width) (name : String) (children : List ParseTree) : Folding :=
  if name = "root" then
    match branches children with
    | [] => refuse (.malformed .emptyRoot)
    | (_, first) :: _ => begin first
  else if name = "sum" then begin children
  else if name = "primitive" then
    match firstNumber? children with
    | some (lexeme, place) => .ended ((Literal.read width lexeme place).mapError .refused)
    | none =>
        match grouped? children with
        | some inner => begin inner
        | none => refuse (.malformed .ungrouped)
  else refuse (.malformed (.unsupported name))

end Folding

/-! ## What comes of a stack -/

/-- The expression of a sum part way through, its pending addends included. -/
def PartialSum.expr (width : Width) (sum : PartialSum) : Except Failure Expr :=
  match sum.total, sum.pending with
  | some total, pending => moreExpr width total pending
  | none, [] => .error (.malformed .emptySum)
  | none, next :: rest => do
      let first ← partExpr width next
      moreExpr width first rest

/-- The expression of the outermost of some sums after an expression is added to the innermost. -/
def PartialSum.close (width : Width) (e : Expr) : List PartialSum → Except Failure Expr
  | [] => .ok e
  | sum :: outer => do
      let whole ← (sum.add e).expr width
      close width whole outer

namespace Folding

/-- What is going to come of a stack. -/
def outcome (width : Width) : Folding → Except Abort Expr
  | .running sum outer =>
      (do PartialSum.close width (← sum.expr width) outer : Except Failure Expr).mapError .refused
  | .ended result => result

/-- The innermost sum has a total or an addend still to come. A suspended sum needs neither, since
the total of the one above is added to it. -/
def Safe : Folding → Prop
  | .running sum _ => sum.total = none → sum.pending ≠ []
  | .ended result => result ≠ .error .noTotal

/-- The work that a stack still takes. -/
def work : Folding → Nat
  | .running sum outer => sum.work + PartialSum.workAll outer
  | .ended _ => 0

theorem outcome_settle (width : Width) (made : Except Failure Folding) :
    (settle made).outcome width =
      match made with
      | .ok folding => folding.outcome width
      | .error failure => .error (.refused failure) := by
  cases made <;> rfl

end Folding

/-! ## Rules and addends -/

/-- What a rule is turned into depends on its name. -/
theorem toExpr_rule (width : Width) (name : String) (children : List ParseTree) :
    (rule name children).toExpr width =
      if name = "root" then
        match branches children with
        | [] => .error (.malformed .emptyRoot)
        | (_, first) :: _ => sumExpr width first
      else if name = "sum" then sumExpr width children
      else if name = "primitive" then partExpr width children
      else .error (.malformed (.unsupported name)) := by
  split
  · next root =>
      subst root
      cases below : branches children with
      | nil => simp [toExpr, label, children?, below, bind, Except.bind]
      | cons branch others => exact toExpr_root below
  split
  · next isSum => rw [isSum, toExpr_sum]
  split
  · next isPrimitive => rw [isPrimitive, toExpr_primitive]
  · next other notSum notPrimitive => simp [toExpr, label, other, notSum, notPrimitive]

theorem grouped?_eq_some_iff {children inner : List ParseTree} :
    grouped? children = some inner ↔ branches children = [("sum", inner)] := by
  unfold grouped?
  split
  · next name found only =>
      rw [only]
      split <;> simp_all
  · next other =>
      refine iff_of_false nofun fun only => other _ _ only

/-- A group adds its own sum. -/
theorem partExpr_of_grouped {width : Width} {children inner : List ParseTree}
    (literal : firstNumber? children = none) (one : grouped? children = some inner) :
    partExpr width children = sumExpr width inner :=
  partExpr_group (firstNumber?_eq_none_iff.1 literal) (grouped?_eq_some_iff.1 one)

theorem partExpr_of_ungrouped {width : Width} {children : List ParseTree}
    (literal : firstNumber? children = none) (none : grouped? children = none) :
    partExpr width children = .error (.malformed .ungrouped) := by
  rw [partExpr, literal]
  dsimp only
  split <;> simp_all

/-! ## One turn -/

namespace PartialSum

variable {width : Width}

/-- A sum that was begun is going to be the sum of all its addends. -/
theorem begin?_expr (children : List ParseTree) :
    (do (← begin? children).expr width) = sumExpr width children := by
  rw [sumExpr]
  split
  · next none => rw [begin?, none]; rfl
  · next first rest all => rw [begin?, all]; rfl

/-- A sum with an addend still to come is that addend, added to the total, and what comes after. -/
theorem expr_of_pending {sum : PartialSum} {next : List ParseTree} {rest : List (List ParseTree)}
    (pending : sum.pending = next :: rest) (advanced : sum.advance.pending = rest) :
    sum.expr width = (do
      let e ← partExpr width next
      (sum.advance.add e).expr width) := by
  obtain ⟨operands, taken, total⟩ := sum
  have later : ∀ e, ((PartialSum.mk operands taken total).advance.add e).pending = rest :=
    fun _ => advanced
  cases total with
  | none => simp only [expr, pending, later]; rfl
  | some total => simp only [expr, pending, later, moreExpr]; rfl

/-- What is pending loses the addend that is taken. -/
theorem pending_eq_cons {sum : PartialSum} {next : List ParseTree}
    (found : sum.operands[sum.taken]? = some next) :
    sum.pending = next :: sum.advance.pending := by
  obtain ⟨inside, rfl⟩ := List.getElem?_eq_some_iff.1 found
  exact List.drop_eq_getElem_cons inside

theorem pending_eq_nil {sum : PartialSum} (none : sum.operands[sum.taken]? = none) :
    sum.pending = [] :=
  List.drop_eq_nil_of_le (List.getElem?_eq_none_iff.1 none)

end PartialSum

namespace Folding

variable {width : Width}

/-- The total of a sum without pending addends is what the sums around it get. -/
theorem outcome_leave {sum : PartialSum} (exhausted : sum.pending = []) {total : Expr}
    (found : sum.total = some total) (outer : List PartialSum) :
    (leave sum.total outer).outcome width = (running sum outer).outcome width := by
  have whole : sum.expr width = .ok total := by
    simp only [PartialSum.expr, found, exhausted, moreExpr]
  rw [outcome, whole, found]
  cases outer <;> rfl

/-- An addend that is taken adds its expression. -/
theorem outcome_take (children : List ParseTree) (sum : PartialSum) (outer : List PartialSum) :
    (settle (take width children sum outer)).outcome width =
      (do
        let e ← partExpr width children
        PartialSum.close width (← (sum.add e).expr width) outer : Except Failure Expr).mapError
          .refused := by
  rw [take]
  cases literal : firstNumber? children with
  | some number =>
      rw [partExpr_literal literal]
      dsimp only
      cases Literal.read width number.1 number.2 <;> rfl
  | none =>
      cases one : grouped? children with
      | none =>
          rw [partExpr_of_ungrouped literal one]
          rfl
      | some inner =>
          rw [partExpr_of_grouped literal one, ← PartialSum.begin?_expr]
          dsimp only
          cases PartialSum.begin? inner <;> rfl

/-- A turn does not change what is going to come of a stack. -/
theorem outcome_turn {folding : Folding} (safe : folding.Safe) :
    (folding.turn width).outcome width = folding.outcome width := by
  cases folding with
  | ended result => rfl
  | running sum outer =>
      rw [turn]
      cases found : sum.operands[sum.taken]? with
      | none =>
          have exhausted := PartialSum.pending_eq_nil found
          obtain ⟨total, known⟩ := Option.ne_none_iff_exists'.1 fun none => safe none exhausted
          exact outcome_leave exhausted known outer
      | some children =>
          have pending := PartialSum.pending_eq_cons found
          dsimp only
          rw [outcome_take, outcome, PartialSum.expr_of_pending pending rfl]
          cases partExpr width children <;> rfl

/-- A sum that is begun has addends. -/
theorem safe_of_begin? {children : List ParseTree} {sum : PartialSum}
    (begun : PartialSum.begin? children = .ok sum) (outer : List PartialSum) :
    (running sum outer).Safe := by
  unfold PartialSum.begin? at begun
  split at begun
  · cases begun
  · next some =>
      cases begun
      exact fun _ => some

/-- A stack is safe if it is made safely. -/
theorem safe_settle {made : Except Failure Folding}
    (safe : ∀ folding, made = .ok folding → folding.Safe) : (settle made).Safe := by
  cases made with
  | error failure => exact nofun
  | ok folding => exact safe folding rfl

/-- A sum to which something was added has a total. -/
theorem safe_add (sum : PartialSum) (e : Expr) (outer : List PartialSum) :
    (running (sum.add e) outer).Safe :=
  fun none => absurd none (Option.some_ne_none _)

/-- What takes an addend is safe whether it adds a literal or begins a group. -/
theorem safe_take (children : List ParseTree) (sum : PartialSum) (outer : List PartialSum) :
    (settle (take width children sum outer)).Safe := by
  refine safe_settle fun folding taken => ?_
  unfold take at taken
  split at taken
  · obtain ⟨e, -, made⟩ := exists_of_bind_ok taken
    cases made
    exact safe_add sum e outer
  · split at taken
    · obtain ⟨group, begun, made⟩ := exists_of_bind_ok taken
      cases made
      exact safe_of_begin? begun _
    · cases taken

/-- A turn keeps the stack safe. -/
theorem safe_turn {folding : Folding} (safe : folding.Safe) : (folding.turn width).Safe := by
  cases folding with
  | ended result => exact safe
  | running sum outer =>
      rw [turn]
      cases found : sum.operands[sum.taken]? with
      | none =>
          have exhausted := PartialSum.pending_eq_nil found
          obtain ⟨total, known⟩ := Option.ne_none_iff_exists'.1 fun none => safe none exhausted
          rw [known]
          cases outer with
          | nil => exact nofun
          | cons around outer => exact safe_add around total outer
      | some children => exact safe_take children sum.advance outer

/-! ## Work -/

theorem work_of_begin? {children : List ParseTree} {sum : PartialSum}
    (begun : PartialSum.begin? children = .ok sum) : sum.work ≤ sizeAll children + 1 := by
  unfold PartialSum.begin? at begun
  split at begun
  · cases begun
  · cases begun
    exact Nat.succ_le_succ (sizeEach_addends_le children)

theorem work_settle {made : Except Failure Folding} {bound : Nat}
    (less : ∀ folding, made = .ok folding → folding.work ≤ bound) :
    (settle made).work ≤ bound := by
  cases made with
  | error failure => exact Nat.zero_le bound
  | ok folding => exact less folding rfl

theorem work_take (children : List ParseTree) (sum : PartialSum) (outer : List PartialSum) :
    (settle (take width children sum outer)).work ≤
      sizeAll children + sum.work + PartialSum.workAll outer := by
  refine work_settle fun folding taken => ?_
  unfold take at taken
  split at taken
  · obtain ⟨e, -, made⟩ := exists_of_bind_ok taken
    cases made
    have same : (sum.add e).work = sum.work := rfl
    simp only [work, same]
    omega
  · split at taken
    · next inner one =>
        obtain ⟨group, begun, made⟩ := exists_of_bind_ok taken
        cases made
        have groupWork := work_of_begin? begun
        have smaller := sizeAll_of_grouped? one
        simp only [work, PartialSum.workAll]
        omega
    · cases taken

theorem work_leave (total : Option Expr) (outer : List PartialSum) :
    (leave total outer).work ≤ PartialSum.workAll outer := by
  rcases total with _ | total
  · exact Nat.zero_le _
  · cases outer with
    | nil => exact Nat.zero_le _
    | cons around outer => exact Nat.le_refl _

/-- A turn leaves less work. -/
theorem work_turn (sum : PartialSum) (outer : List PartialSum) :
    ((running sum outer).turn width).work < (running sum outer).work := by
  rw [turn]
  cases found : sum.operands[sum.taken]? with
  | none =>
      have less := work_leave sum.total outer
      have some : 0 < sum.work := Nat.succ_pos _
      show (leave sum.total outer).work < sum.work + PartialSum.workAll outer
      omega
  | some children =>
      have less : (settle (take width children sum.advance outer)).work ≤ _ :=
        work_take children sum.advance outer
      have pending := PartialSum.pending_eq_cons found
      simp only [work, PartialSum.work, pending, sizeEach] at less ⊢
      omega

/-! ## All turns -/

/-- The turns end with the outcome of the stack, and there are no more of them than the work. -/
theorem turns_eq {folding : Folding} (safe : folding.Safe) {turns : Nat}
    (enough : folding.work ≤ turns) :
    (turn width)^[turns] folding = .ended (folding.outcome width) := by
  induction turns generalizing folding with
  | zero =>
      cases folding with
      | ended result => rfl
      | running sum outer => simp [work, PartialSum.work] at enough
  | succ turns ih =>
      rw [Function.iterate_succ_apply, ← outcome_turn safe]
      refine ih (safe_turn safe) ?_
      cases folding with
      | ended result => exact Nat.zero_le turns
      | running sum outer => exact Nat.le_of_lt_succ ((work_turn sum outer).trans_le enough)

/-! ## Whole trees -/

theorem outcome_begin (children : List ParseTree) :
    (begin children).outcome width = (sumExpr width children).mapError .refused := by
  rw [begin, outcome_settle, ← PartialSum.begin?_expr]
  cases PartialSum.begin? children with
  | error failure => rfl
  | ok sum =>
      show ((sum.expr width).bind .ok).mapError _ = (sum.expr width).mapError _
      cases sum.expr width <;> rfl

/-- What is going to come of the stack of a tree is the expression of the tree. -/
theorem outcome_start (name : String) (children : List ParseTree) :
    (start width name children).outcome width =
      ((rule name children).toExpr width).mapError .refused := by
  rw [start, toExpr_rule]
  split_ifs with root isSum isPrimitive
  · cases branches children with
    | nil => rfl
    | cons branch others => exact outcome_begin branch.2
  · exact outcome_begin children
  · cases literal : firstNumber? children with
    | some number =>
        rw [partExpr_literal literal]
        rfl
    | none =>
        cases one : grouped? children with
        | none =>
            rw [partExpr_of_ungrouped literal one]
            rfl
        | some inner =>
            rw [partExpr_of_grouped literal one]
            exact outcome_begin inner
  · rfl

/-- A tree is refused or read at once, or a sum in it is begun. -/
theorem start_cases (width : Width) (name : String) (children : List ParseTree) :
    (∃ result : Except Failure Expr,
      start width name children = .ended (result.mapError .refused)) ∨
    ∃ inner, sizeAll inner ≤ sizeAll children ∧ start width name children = begin inner := by
  have refused : ∀ failure, ∃ result : Except Failure Expr,
      refuse failure = .ended (result.mapError .refused) := fun failure => ⟨.error failure, rfl⟩
  rw [start]
  split
  · cases below : branches children with
    | nil => exact .inl (refused _)
    | cons branch others =>
        have bound := sizeEach_branches_le children
        simp only [below, List.map_cons, sizeEach] at bound
        exact .inr ⟨branch.2, by omega, rfl⟩
  split
  · exact .inr ⟨children, Nat.le_refl _, rfl⟩
  split
  · cases firstNumber? children with
    | some number => exact .inl ⟨Literal.read width number.1 number.2, rfl⟩
    | none =>
        cases one : grouped? children with
        | none => exact .inl (refused _)
        | some inner => exact .inr ⟨inner, Nat.le_of_lt (sizeAll_of_grouped? one), rfl⟩
  · exact .inl (refused _)

theorem safe_start (width : Width) (name : String) (children : List ParseTree) :
    (start width name children).Safe := by
  rcases start_cases width name children with ⟨result, ended⟩ | ⟨inner, -, begun⟩
  · rw [ended]
    cases result <;> exact nofun
  · rw [begun]
    refine safe_settle fun folding made => ?_
    obtain ⟨sum, begun, made⟩ := exists_of_bind_ok made
    cases made
    exact safe_of_begin? begun []

theorem work_start (width : Width) (name : String) (children : List ParseTree) :
    (start width name children).work ≤ (rule name children).size := by
  rw [size]
  rcases start_cases width name children with ⟨result, ended⟩ | ⟨inner, smaller, begun⟩
  · rw [ended]
    exact Nat.zero_le _
  · rw [begun]
    refine work_settle fun folding made => ?_
    obtain ⟨sum, begun, made⟩ := exists_of_bind_ok made
    cases made
    have bound := work_of_begin? begun
    simp only [work, PartialSum.workAll]
    omega

end Folding

/-! ## The plain recursion -/

theorem sizeAll_lt_of_mem_addends {children part : List ParseTree}
    (member : part ∈ addends children) : sizeAll part < sizeAll children := by
  refine Nat.lt_of_lt_of_le ?_ (sizeEach_addends_le children)
  generalize addends children = parts at member
  induction parts with
  | nil => cases member
  | cons first rest ih =>
      rw [sizeEach]
      rcases List.mem_cons.1 member with rfl | later
      · omega
      · have smaller := ih later
        omega

theorem mapM_congr_of_mem {α β ε : Type} {f g : α → Except ε β} {sources : List α}
    (same : ∀ source ∈ sources, f source = g source) : sources.mapM f = sources.mapM g := by
  induction sources with
  | nil => rfl
  | cons source rest ih =>
      rw [List.mapM_cons, List.mapM_cons, same source List.mem_cons_self,
        ih fun other member => same other (List.mem_cons_of_mem _ member)]

/-- `PlainRecursion width sum part`: the expression of a sum and that of an addend, each by the
other. Both are given the children of the rule in question. -/
structure PlainRecursion (width : Width) (sum part : List ParseTree → Except Failure Expr) :
    Prop where
  /-- A sum is the sum of its addends from the left, at the place of its left part. It has some. -/
  sum_eq : ∀ children, sum children = do
    match ← (addends children).mapM part with
    | [] => .error (.malformed .emptySum)
    | first :: rest => .ok (rest.foldl (fun left right => .plus left right left.place) first)
  /-- An addend with a number is its first number. -/
  literal : ∀ {children lexeme place}, firstNumber? children = some (lexeme, place) →
    part children = Literal.read width lexeme place
  /-- An addend without a number is the one sum that it has. -/
  group : ∀ {children inner}, firstNumber? children = none → branches children = [("sum", inner)] →
    part children = sum inner
  ungrouped : ∀ {children}, firstNumber? children = none →
    (∀ inner, branches children ≠ [("sum", inner)]) →
      part children = .error (.malformed .ungrouped)

namespace PlainRecursion

variable {width : Width} {sum part sum' part' : List ParseTree → Except Failure Expr}

theorem sumExpr (width : Width) :
    PlainRecursion width (sumExpr width) (partExpr width) where
  sum_eq children := sumExpr_eq_mapM width children
  literal := partExpr_literal
  group literal only := partExpr_of_grouped literal (grouped?_eq_some_iff.2 only)
  ungrouped literal none := by
    refine partExpr_of_ungrouped literal (Option.eq_none_iff_forall_ne_some.2 ?_)
    exact fun inner one => none inner (grouped?_eq_some_iff.1 one)

/-- The equations leave no choice. -/
theorem unique (recursion : PlainRecursion width sum part)
    (other : PlainRecursion width sum' part') : sum' = sum ∧ part' = part := by
  have same : ∀ size children, sizeAll children = size →
      sum' children = sum children ∧ part' children = part children := by
    intro size
    induction size using Nat.strong_induction_on with
    | _ size ih =>
        rintro children rfl
        have samePart : ∀ inner ∈ addends children, part' inner = part inner :=
          fun inner member => (ih _ (sizeAll_lt_of_mem_addends member) inner rfl).2
        refine ⟨by rw [recursion.sum_eq, other.sum_eq, mapM_congr_of_mem samePart], ?_⟩
        cases literal : firstNumber? children with
        | some number => rw [recursion.literal literal, other.literal literal]
        | none =>
            cases one : grouped? children with
            | some inner =>
                have only := grouped?_eq_some_iff.1 one
                rw [recursion.group literal only, other.group literal only]
                exact (ih _ (sizeAll_of_grouped? one) inner rfl).1
            | none =>
                have none : ∀ inner, branches children ≠ [("sum", inner)] :=
                  fun inner only => by simp [grouped?_eq_some_iff.2 only] at one
                rw [recursion.ungrouped literal none, other.ungrouped literal none]
  exact ⟨funext fun children => (same _ children rfl).1,
    funext fun children => (same _ children rfl).2⟩

end PlainRecursion

/-- The expression of a rule, whatever it and the trees below it are: that of the first rule below a
`root`, of a `sum`, or of a `primitive`, by the plain recursion, which gives one answer. The turns
on the stack come to the same expression or the same failure, and to no sum without a total. There
are no more of them than the tree has nodes. -/
theorem toExpr_recursive (width : Width) :
    ∃ sum part, PlainRecursion width sum part ∧
      (∀ sum' part', PlainRecursion width sum' part' → sum' = sum ∧ part' = part) ∧
      ∀ name children,
        (rule name children).toExpr width =
          (if name = "root" then
            match branches children with
            | [] => .error (.malformed .emptyRoot)
            | (_, first) :: _ => sum first
          else if name = "sum" then sum children
          else if name = "primitive" then part children
          else .error (.malformed (.unsupported name))) ∧
        ∀ turns, (rule name children).size ≤ turns →
          (Folding.turn width)^[turns] (Folding.start width name children) =
            .ended (((rule name children).toExpr width).mapError .refused) := by
  refine ⟨sumExpr width, partExpr width, .sumExpr width,
    fun sum' part' other => (PlainRecursion.sumExpr width).unique other, fun name children => ?_⟩
  refine ⟨toExpr_rule width name children, fun turns enough => ?_⟩
  rw [← Folding.outcome_start]
  exact Folding.turns_eq (Folding.safe_start width name children)
    ((Folding.work_start width name children).trans enough)

/-- A tree that no source has: the sum has a name of its own, so have its addends, and after a group
and a literal that overflows comes an addend that is nothing at all. The literal is reported. -/
theorem toExpr_recursive_malformed :
    ∃ sum part, PlainRecursion .bits8 sum part ∧
      let children := [rule "total"
        [rule "primitive" [rule "sum" [rule "one" [text "n", token "NUMBER" "3" ⟨1, 2⟩]]],
          rule "two" [token "NUMBER" "200" ⟨1, 5⟩], rule "primitive" []]]
      (∃ inner, branches children = [("total", inner)] ∧
        sum inner = .error (.rejected (.located ⟨1, 5⟩ (.literalOverflow "200" 8)))) ∧
      (Folding.turn .bits8)^[20] (Folding.start .bits8 "root" children) =
        .ended (.error (.refused (.rejected (.located ⟨1, 5⟩ (.literalOverflow "200" 8))))) := by
  obtain ⟨sum, part, recursion, -, trees⟩ := toExpr_recursive .bits8
  refine ⟨sum, part, recursion, ?_⟩
  intro children
  have refused : (rule "root" children).toExpr .bits8 =
      .error (.rejected (.located ⟨1, 5⟩ (.literalOverflow "200" 8))) := by
    with_unfolding_all rfl
  obtain ⟨same, turns⟩ := trees "root" children
  refine ⟨⟨_, rfl, same.symm.trans refused⟩, ?_⟩
  rw [turns 20 (by decide), refused]
  rfl

end SumCalc.ParseTree
