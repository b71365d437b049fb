import Mathlib
import SumCalc.Builder.Walk
import SumCalc.Proofs.Anchors

/-!
# Histories of a builder

A builder may be used in any order and on any trees, and it lives on after failures. Whatever its
history, it holds exactly the numbers that were pushed, in their order, and sums that are anchored:
`Keeps` is the invariant, `Shift` lists what the end of a node does to the stack, and `Acts` what an
operation does to a builder that is not complete. A builder becomes complete by the first `finish` or
walk that succeeds, and then nothing changes any more.

Results:
1. `Shift.keeps`, `endAll_keeps`, `perform_acts`: the invariant over one event, over some of them, and
   over one operation.
2. `perform_complete`: nothing changes a complete builder.
3. `after_cases`: where a history leaves a builder.
4. `after_keeps`, `exists_result_iff`: the invariant over a history, and when there is a result.
5. `history_faithful`: what holds of a builder after any history.
-/

namespace SumCalc

open ParseTree

namespace Builder

/-! ## Histories and what they push -/

/-- The builder after operations. -/
def after (builder : Builder) : List Operation → Builder
  | [] => builder
  | operation :: operations => (builder.perform operation).1.after operations

/-- The number that a primitive pushes when it ends: that of its first literal, if it has one. -/
def numberOf (width : Width) (tree : ParseTree) : List (Int × Option Position) :=
  match tree with
  | .rule _ children =>
      match firstNumber? children with
      | some (lexeme, place) =>
          match Literal.read width lexeme place with
          | .ok e => e.leaves
          | .error _ => []
      | none => []
  | _ => []

/-- The numbers that are pushed while nodes end one after the other, up to the first failure. -/
def pushedByNodes (builder : Builder) : List ParseTree → List (Int × Option Position)
  | [] => []
  | tree :: rest =>
      match builder.endNode tree with
      | .ok next =>
          (if tree.label = "primitive" then numberOf builder.width tree else []) ++
            next.pushedByNodes rest
      | .error _ => []

/-- The numbers that an operation pushes. -/
def pushedBy (builder : Builder) : Operation → List (Int × Option Position)
  | .endPrimitive tree =>
      match builder.endPrimitive tree with
      | .ok _ => numberOf builder.width tree
      | .error _ => []
  | .walk tree => builder.pushedByNodes tree.postorder
  | _ => []

/-- The numbers that operations push, one after the other. -/
def pushedIn (builder : Builder) : List Operation → List (Int × Option Position)
  | [] => []
  | operation :: operations =>
      builder.pushedBy operation ++ (builder.perform operation).1.pushedIn operations

/-! ## What one event does -/

/-- What the end of a node does to the values on a stack, the top first, and the numbers that it
pushes. -/
inductive Shift : List Expr → List (Int × Option Position) → List Expr → Prop
  | keep (values : List Expr) : Shift values [] values
  | push (n : Int) (place : Option Position) (values : List Expr) :
      Shift values [(n, place)] (.number n place :: values)
  | fold (first : Expr) (rest below : List Expr) :
      Shift ((first :: rest).reverse ++ below) [] (first.chain rest :: below)

theorem endPrimitive_shift {width : Width} {values : List Expr} {tree : ParseTree} {next : Builder}
    (ended : endPrimitive ⟨width, .building values⟩ tree = .ok next) :
    ∃ others, next = ⟨width, .building others⟩ ∧ Shift values (numberOf width tree) others := by
  cases tree with
  | token kind lexeme place => cases ended
  | text content => cases ended
  | rule name children =>
      simp only [endPrimitive, open?, children?, bind, Except.bind] at ended
      cases number : firstNumber? children with
      | none =>
          have nothing : numberOf width (.rule name children) = [] := by simp [numberOf, number]
          rw [number] at ended
          cases ended
          exact ⟨values, rfl, nothing ▸ .keep values⟩
      | some literal =>
          simp only [number] at ended
          cases read : Literal.read width literal.1 literal.2 with
          | error failure =>
              rw [read] at ended
              cases ended
          | ok e =>
              rw [read] at ended
              cases ended
              obtain ⟨n, -, rfl⟩ := Literal.eq_number_of_read read
              have one : numberOf width (.rule name children) = [(n, some literal.2)] := by
                simp [numberOf, number, read, Term.leaves]
              exact ⟨_, rfl, one ▸ .push n _ values⟩

theorem reduce_shift {values others : List Expr} {count : Nat}
    (reduced : reduce values count = .ok others) : Shift values [] others := by
  unfold reduce at reduced
  dsimp only at reduced
  split at reduced
  · cases reduced
  · split at reduced
    · cases reduced
    · next first rest parts =>
      cases reduced
      have split : values = (first :: rest).reverse ++ values.drop count := by
        rw [← parts, List.reverse_reverse, List.take_append_drop]
      have folded := Shift.fold first rest (values.drop count)
      rw [← split] at folded
      exact folded

theorem endSum_shift {width : Width} {values : List Expr} {tree : ParseTree} {next : Builder}
    (ended : endSum ⟨width, .building values⟩ tree = .ok next) :
    ∃ others, next = ⟨width, .building others⟩ ∧ Shift values [] others := by
  cases tree with
  | token kind lexeme place => cases ended
  | text content => cases ended
  | rule name children =>
      simp only [endSum, open?, children?, bind, Except.bind] at ended
      cases reduced : reduce values (branches children).length with
      | error fault =>
          rw [reduced] at ended
          cases ended
      | ok others =>
          rw [reduced] at ended
          cases ended
          exact ⟨others, rfl, reduce_shift reduced⟩

/-- What the end of a node in a walk does. -/
theorem endNode_shift {width : Width} {values : List Expr} {tree : ParseTree} {next : Builder}
    (ended : endNode ⟨width, .building values⟩ tree = .ok next) :
    ∃ others, next = ⟨width, .building others⟩ ∧
      Shift values (if tree.label = "primitive" then numberOf width tree else []) others := by
  unfold endNode at ended
  split at ended
  · next primitive =>
      rw [if_pos primitive]
      exact endPrimitive_shift ended
  · next other =>
      rw [if_neg other]
      split at ended
      · exact endSum_shift ended
      · cases ended
        exact ⟨values, rfl, .keep values⟩

/-! ## The invariant -/

/-- What holds of the values on a stack after `pushed` was pushed: these are the numbers in them, from
the bottom to the top, and all sums in them are anchored. -/
structure Keeps (values : List Expr) (pushed : List (Int × Option Position)) : Prop where
  leaves : values.reverse.flatMap Term.leaves = pushed
  anchored : ∀ e ∈ values, e.Anchored

theorem keeps_nil : Keeps [] [] := ⟨rfl, by simp⟩

theorem Shift.keeps {values others : List Expr} {pushed more : List (Int × Option Position)}
    (shift : Shift values more others) (keeps : Keeps values pushed) :
    Keeps others (pushed ++ more) := by
  obtain ⟨leaves, anchored⟩ := keeps
  cases shift with
  | keep => exact ⟨by rw [leaves, List.append_nil], anchored⟩
  | push n place =>
      refine ⟨?_, List.forall_mem_cons.2 ⟨trivial, anchored⟩⟩
      rw [List.reverse_cons, List.flatMap_append, leaves]
      rfl
  | fold first rest below =>
      simp only [List.mem_append, List.mem_reverse, List.mem_cons, or_imp, forall_and,
        forall_eq] at anchored
      obtain ⟨⟨firstAnchored, restAnchored⟩, belowAnchored⟩ := anchored
      refine ⟨?_, List.forall_mem_cons.2 ⟨firstAnchored.chain restAnchored, belowAnchored⟩⟩
      -- the parts were on top in reverse, so they follow what is below in their order
      rw [← leaves, List.append_nil, List.reverse_append, List.reverse_reverse,
        List.flatMap_append, ← Term.leaves_chain]
      simp

/-- The builder that a walk leaves behind. -/
def left : Except Stop Builder → Builder
  | .ok builder => builder
  | .error stop => stop.builder

/-- Events keep the invariant, and a failing one leaves what those before it made. -/
theorem endAll_keeps (width : Width) (trees : List ParseTree) {values : List Expr}
    {pushed : List (Int × Option Position)} (keeps : Keeps values pushed) :
    ∃ others, left (endAll ⟨width, .building values⟩ trees) = ⟨width, .building others⟩ ∧
      Keeps others (pushed ++ pushedByNodes ⟨width, .building values⟩ trees) := by
  induction trees generalizing values pushed with
  | nil => exact ⟨values, rfl, by simpa [pushedByNodes] using keeps⟩
  | cons tree rest ih =>
      cases ended : endNode ⟨width, .building values⟩ tree with
      | error failure =>
          simp only [endAll, pushedByNodes, ended, List.append_nil]
          exact ⟨values, rfl, keeps⟩
      | ok next =>
          obtain ⟨others, rfl, shift⟩ := endNode_shift ended
          obtain ⟨final, reached, kept⟩ := ih (shift.keeps keeps)
          refine ⟨final, ?_, ?_⟩
          · rw [← reached]
            simp only [endAll, ended]
          · simpa [pushedByNodes, ended] using kept

/-! ## Operations -/

/-- The operations by which a builder may become complete. -/
def Operation.Finishes : Operation → Prop
  | .finish => True
  | .walk _ => True
  | _ => False

/-- `Acts width operation pushed result`: what an operation does to a builder that is not complete,
if `pushed` was pushed until its end. -/
inductive Acts (width : Width) (operation : Operation) (pushed : List (Int × Option Position)) :
    Builder × Outcome → Prop
  | stays {values : List Expr} {outcome : Outcome} :
      Keeps values pushed → (operation.Finishes → outcome ≠ .done) →
        (∀ e, outcome ≠ .result e) →
          Acts width operation pushed (⟨width, .building values⟩, outcome)
  | completes {e : Expr} :
      Keeps [e] pushed → operation.Finishes →
        Acts width operation pushed (⟨width, .complete e⟩, .done)

section

variable {width : Width} {operation : Operation} {values : List Expr}
  {pushed : List (Int × Option Position)}

theorem Acts.fails (keeps : Keeps values pushed) (failure : Failure) :
    Acts width operation pushed (⟨width, .building values⟩, .failed failure) :=
  .stays keeps nofun nofun

theorem Acts.goesOn (keeps : Keeps values pushed) (more : ¬ operation.Finishes) :
    Acts width operation pushed (⟨width, .building values⟩, .done) :=
  .stays keeps (fun finishes => absurd finishes more) nofun

end

/-- The end of a history either completes a builder that holds one value, or fails. -/
theorem finish_cases (width : Width) (values : List Expr) :
    (∃ e, values = [e] ∧
      finish ⟨width, .building values⟩ = .ok ⟨width, .complete e⟩) ∨
    finish ⟨width, .building values⟩ = .error (refusal (.unbalanced values.length)) := by
  match values with
  | [] => exact .inr rfl
  | [e] => exact .inl ⟨e, rfl, rfl⟩
  | _ :: _ :: _ => exact .inr rfl

theorem walk_acts (width : Width) (tree : ParseTree) {values : List Expr}
    {pushed : List (Int × Option Position)} (keeps : Keeps values pushed) :
    Acts width (.walk tree) (pushed ++ pushedBy ⟨width, .building values⟩ (.walk tree))
      (perform ⟨width, .building values⟩ (.walk tree)) := by
  -- a leaf has no nodes that could end
  have leaf : ∀ failure, Acts width (.walk tree) (pushed ++ [])
      (⟨width, .building values⟩, .failed failure) :=
    .fails (by rwa [List.append_nil])
  cases tree with
  | token kind lexeme place => exact leaf _
  | text content => exact leaf _
  | rule name children =>
      have events := endAll_keeps width (ParseTree.rule name children).postorder keeps
      simp only [perform, walk_rule, pushedBy]
      generalize endAll ⟨width, .building values⟩ _ = outcome at events ⊢
      obtain ⟨others, reached, kept⟩ := events
      cases outcome with
      | error stop =>
          obtain ⟨failure, builder⟩ := stop
          cases reached
          exact .fails kept _
      | ok builder =>
          cases reached
          simp only [bind, Except.bind]
          rcases finish_cases width others with ⟨e, rfl, finished⟩ | failed
          · rw [finished]
            exact .completes kept trivial
          · rw [failed]
            exact .fails kept _

theorem perform_acts (width : Width) (operation : Operation) {values : List Expr}
    {pushed : List (Int × Option Position)} (keeps : Keeps values pushed) :
    Acts width operation (pushed ++ pushedBy ⟨width, .building values⟩ operation)
      (perform ⟨width, .building values⟩ operation) := by
  have unchanged : Keeps values (pushed ++ []) := by rwa [List.append_nil]
  cases operation with
  | endPrimitive tree =>
      simp only [perform, pushedBy]
      cases ended : endPrimitive ⟨width, .building values⟩ tree with
      | error failure => exact .fails unchanged _
      | ok next =>
          obtain ⟨others, rfl, shift⟩ := endPrimitive_shift ended
          exact .goesOn (shift.keeps keeps) id
  | endSum tree =>
      simp only [perform, pushedBy]
      cases ended : endSum ⟨width, .building values⟩ tree with
      | error failure => exact .fails unchanged _
      | ok next =>
          obtain ⟨others, rfl, shift⟩ := endSum_shift ended
          exact .goesOn (shift.keeps keeps) id
  | walk tree => exact walk_acts width tree keeps
  | finish =>
      simp only [perform, pushedBy]
      rcases finish_cases width values with ⟨e, rfl, finished⟩ | failed
      · rw [finished]
        exact .completes unchanged trivial
      · rw [failed]
        exact .fails unchanged _
  | result => exact .fails unchanged _

/-! ## Complete builders -/

section

variable (width : Width) (e : Expr)

theorem endNode_complete (tree : ParseTree) :
    endNode ⟨width, .complete e⟩ tree = .ok ⟨width, .complete e⟩ ∧
        tree.label ≠ "primitive" ∨
      endNode ⟨width, .complete e⟩ tree = .error (refusal .alreadyComplete) := by
  unfold endNode
  split
  · exact .inr rfl
  · next other =>
    split
    · exact .inr rfl
    · exact .inl ⟨rfl, other⟩

/-- A complete builder refuses the events of a walk, or they do not concern it. -/
theorem endAll_complete (trees : List ParseTree) :
    (endAll ⟨width, .complete e⟩ trees = .ok ⟨width, .complete e⟩ ∨
      endAll ⟨width, .complete e⟩ trees =
        .error ⟨refusal .alreadyComplete, ⟨width, .complete e⟩⟩) ∧
    pushedByNodes ⟨width, .complete e⟩ trees = [] := by
  induction trees with
  | nil => exact ⟨.inl rfl, rfl⟩
  | cons tree rest ih =>
      rcases endNode_complete width e tree with ⟨ended, other⟩ | refused
      · simpa only [endAll, pushedByNodes, ended, if_neg other, List.nil_append] using ih
      · exact ⟨.inr (by simp only [endAll, refused]), by simp only [pushedByNodes, refused]⟩

theorem perform_walk_complete (name : String) (children : List ParseTree) :
    perform ⟨width, .complete e⟩ (.walk (.rule name children)) =
      (⟨width, .complete e⟩, .failed (refusal .alreadyComplete)) := by
  rw [perform, walk_rule]
  rcases (endAll_complete width e (ParseTree.rule name children).postorder).1 with ended | refused
  · rw [ended]
    rfl
  · rw [refused]
    rfl

/-- Nothing changes a complete builder, and nothing is pushed on it. -/
theorem perform_complete (operation : Operation) :
    (perform ⟨width, .complete e⟩ operation).1 = ⟨width, .complete e⟩ ∧
      pushedBy ⟨width, .complete e⟩ operation = [] := by
  cases operation with
  | walk tree =>
      cases tree with
      | rule name children =>
          rw [perform_walk_complete]
          exact ⟨rfl, (endAll_complete width e _).2⟩
      | token kind lexeme place => exact ⟨rfl, rfl⟩
      | text content => exact ⟨rfl, rfl⟩
  | endPrimitive tree => exact ⟨rfl, rfl⟩
  | endSum tree => exact ⟨rfl, rfl⟩
  | finish => exact ⟨rfl, rfl⟩
  | result => exact ⟨rfl, rfl⟩

theorem after_complete (operations : List Operation) :
    after ⟨width, .complete e⟩ operations = ⟨width, .complete e⟩ ∧
      pushedIn ⟨width, .complete e⟩ operations = [] := by
  induction operations with
  | nil => exact ⟨rfl, rfl⟩
  | cons operation operations ih =>
      obtain ⟨unchanged, nothing⟩ := perform_complete width e operation
      simpa only [after, pushedIn, unchanged, nothing, List.nil_append] using ih

end

/-! ## Whole histories -/

/-- Some `finish` or walk in a history succeeds. -/
def Completed (builder : Builder) (operations : List Operation) : Prop :=
  ∃ front operation back, operations = front ++ operation :: back ∧ operation.Finishes ∧
    ((builder.after front).perform operation).2 = .done

theorem not_completed_nil (builder : Builder) : ¬ builder.Completed [] := by
  rintro ⟨front, operation, back, split, -⟩
  simp at split

theorem completed_cons {builder : Builder} {operation : Operation} {operations : List Operation} :
    builder.Completed (operation :: operations) ↔
      operation.Finishes ∧ (builder.perform operation).2 = .done ∨
        (builder.perform operation).1.Completed operations := by
  constructor
  · rintro ⟨front, last, back, split, finishes, done⟩
    cases front with
    | nil =>
        cases split
        exact .inl ⟨finishes, done⟩
    | cons first front =>
        cases split
        exact .inr ⟨front, last, back, rfl, finishes, done⟩
  · rintro (⟨finishes, done⟩ | ⟨front, last, back, rfl, finishes, done⟩)
    · exact ⟨[], operation, operations, rfl, finishes, done⟩
    · exact ⟨operation :: front, last, back, rfl, finishes, done⟩

/-- Where a history leaves a builder. -/
theorem after_cases (width : Width) (operations : List Operation) {values : List Expr}
    {pushed : List (Int × Option Position)} (keeps : Keeps values pushed) :
    (∃ others, after ⟨width, .building values⟩ operations = ⟨width, .building others⟩ ∧
      Keeps others (pushed ++ pushedIn ⟨width, .building values⟩ operations) ∧
      ¬ Completed ⟨width, .building values⟩ operations) ∨
    ∃ e, after ⟨width, .building values⟩ operations = ⟨width, .complete e⟩ ∧
      Keeps [e] (pushed ++ pushedIn ⟨width, .building values⟩ operations) ∧
      Completed ⟨width, .building values⟩ operations := by
  induction operations generalizing values pushed with
  | nil => exact .inl ⟨values, rfl, by simpa [pushedIn] using keeps, not_completed_nil _⟩
  | cons operation operations ih =>
      have acts := perform_acts width operation keeps
      simp only [after, pushedIn, completed_cons, ← List.append_assoc]
      generalize perform ⟨width, .building values⟩ operation = result at acts ⊢
      cases acts with
      | stays kept undone _ =>
          have later := ih kept
          simpa only [not_or, not_and.2 undone, false_or, not_false_eq_true, true_and] using later
      | completes kept finishes =>
          obtain ⟨final, nothing⟩ := after_complete width _ operations
          refine .inr ⟨_, final, ?_, .inl ⟨finishes, rfl⟩⟩
          rwa [nothing, List.append_nil]

/-- A builder after operations and further operations. -/
theorem after_append (builder : Builder) (first second : List Operation) :
    builder.after (first ++ second) = (builder.after first).after second := by
  induction first generalizing builder with
  | nil => rfl
  | cons operation first ih => exact ih _

/-- An operation other than a walk that fails leaves the builder as it was. -/
theorem perform_failed {builder : Builder} {operation : Operation} {failure : Failure}
    (noWalk : ∀ tree, operation ≠ .walk tree)
    (failed : (builder.perform operation).2 = .failed failure) :
    (builder.perform operation).1 = builder := by
  have settled : ∀ result, (builder.settle result).2 = .failed failure →
      (builder.settle result).1 = builder := by
    intro result failed
    cases result with
    | ok next => cases failed
    | error other => rfl
  cases operation with
  | endPrimitive tree => exact settled _ failed
  | endSum tree => exact settled _ failed
  | finish => exact settled _ failed
  | walk tree => exact absurd rfl (noWalk tree)
  | result =>
      simp only [perform]
      cases builder.result <;> rfl

/-- Only a complete builder has a result. -/
theorem complete_of_result {builder : Builder} {e : Expr}
    (found : (builder.perform .result).2 = .result e) :
    ∃ width, builder = ⟨width, .complete e⟩ := by
  obtain ⟨width, progress⟩ := builder
  cases progress with
  | building values => cases found
  | complete last =>
      cases found
      exact ⟨width, rfl⟩

/-- A history keeps the invariant. -/
theorem after_keeps (width : Width) (operations : List Operation) :
    Keeps ((new width).after operations).values ((new width).pushedIn operations) := by
  rcases after_cases width operations keeps_nil with ⟨others, state, kept, -⟩ | ⟨e, state, kept, -⟩ <;>
    rw [new, state] <;> exact kept

/-- There is a result exactly if some `finish` or walk succeeded. -/
theorem exists_result_iff (width : Width) (operations : List Operation) :
    (∃ e, (((new width).after operations).perform .result).2 = .result e) ↔
      (new width).Completed operations := by
  rcases after_cases width operations keeps_nil with
    ⟨others, state, -, incomplete⟩ | ⟨e, state, -, complete⟩
  · rw [new, state]
    exact iff_of_false nofun incomplete
  · rw [new, state]
    exact iff_of_true ⟨e, rfl⟩ complete

/-- What holds of a builder after any history. Its values hold exactly the numbers that were pushed,
in their order, and their sums are anchored. An operation other than a walk leaves it as it was if it
fails. There is a result exactly if some `finish` or walk succeeded, and then one value is left,
everything else is refused, and nothing changes any more. -/
theorem history_faithful (width : Width) (operations : List Operation) :
    let builder := (new width).after operations
    builder.values.reverse.flatMap Term.leaves = (new width).pushedIn operations ∧
    (∀ e ∈ builder.values, e.Anchored) ∧
    (∀ operation failure, (∀ tree, operation ≠ .walk tree) →
      (builder.perform operation).2 = .failed failure →
        (builder.perform operation).1 = builder) ∧
    ((∃ e, (builder.perform .result).2 = .result e) ↔ (new width).Completed operations) ∧
    ∀ e, (builder.perform .result).2 = .result e →
      builder.depth = 1 ∧
      (∀ tree,
        builder.perform (.endPrimitive tree) = (builder, .failed (refusal .alreadyComplete)) ∧
        builder.perform (.endSum tree) = (builder, .failed (refusal .alreadyComplete))) ∧
      (∀ name children, builder.perform (.walk (.rule name children)) =
        (builder, .failed (refusal .alreadyComplete))) ∧
      builder.perform .finish = (builder, .failed (refusal .alreadyComplete)) ∧
      builder.perform .result = (builder, .result e) ∧
      ∀ more, (new width).after (operations ++ more) = builder := by
  intro builder
  have keeps : Keeps builder.values ((new width).pushedIn operations) := after_keeps width operations
  have completed := exists_result_iff width operations
  refine ⟨keeps.leaves, keeps.anchored, fun operation failure => perform_failed, completed, ?_⟩
  intro e found
  have goOn : ∀ more, (new width).after (operations ++ more) = builder.after more :=
    after_append (new width) operations
  obtain ⟨own, state⟩ := complete_of_result found
  simp only [goOn, state]
  exact ⟨rfl, fun tree => ⟨rfl, rfl⟩, perform_walk_complete own e, rfl, rfl,
    fun more => (after_complete own e more).1⟩

/-- A number is pushed, a walk pushes another one and fails at a third that is too great, a sum takes
the two that are left, and the builder becomes complete. -/
theorem history_faithful_residue :
    ∃ (operations : List Operation) (e : Expr),
      e.leaves = [(1, some ⟨1, 1⟩), (2, some ⟨1, 3⟩)] ∧ e.place = some ⟨1, 1⟩ ∧
      (new .bits8).pushedIn operations = e.leaves ∧
      (((new .bits8).after operations).perform .result).2 = .result e ∧
      ((new .bits8).after operations).depth = 1 ∧
      ∀ more, (new .bits8).after (operations ++ more) = (new .bits8).after operations := by
  let literal (lexeme : String) (place : Position) : ParseTree :=
    .rule "primitive" [.token "NUMBER" lexeme place]
  let operations : List Operation :=
    [.endPrimitive (literal "1" ⟨1, 1⟩),
      .walk (.rule "sum" [literal "2" ⟨1, 3⟩, literal "200" ⟨1, 5⟩]),
      .endSum (.rule "sum" [.rule "left" [], .text "plus", .rule "right" []]), .finish, .result]
  let e : Expr := .plus (.number 1 (some ⟨1, 1⟩)) (.number 2 (some ⟨1, 3⟩)) (some ⟨1, 1⟩)
  have found : (((new .bits8).after operations).perform .result).2 = .result e := by
    cbv
  obtain ⟨-, -, -, -, complete⟩ := history_faithful .bits8 operations
  obtain ⟨depth, -, -, -, -, unchanged⟩ := complete e found
  exact ⟨operations, e, rfl, rfl, by cbv, found, depth, unchanged⟩

end Builder

end SumCalc
