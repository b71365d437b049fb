import Mathlib
import SumCalc.Proofs.Building

/-!
# The stack at every moment of a walk

A walk lets the rules of a tree end one after the other, each after its children. At any moment the
stack holds, from the bottom to the top, the expressions of the rules that have ended and whose
parents have not, from left to right. A `Site` is a rule with the way to it; `pending` picks these
rules from those that have ended. What has ended is made up of the trees below the pending rules,
side by side, and each of these trees has pushed its expression.

Results:
1. `exists_moment`: a moment of a walk is a place in the tree, with the parts that are over on its way.
2. `pending_of_moment`, `exists_others`: the pending rules are these parts, and those of the next rule
   come last.
3. `walk_of_split`, `pushes_pending`: a walk comes by every moment, and what has ended by then pushes the
   expressions of the pending rules.
4. `walk_moments`: the stack at every moment of the walk of a shaped tree.
-/

namespace SumCalc

open ParseTree

/-! ## Rules and their places -/

/-- A rule at its place in a tree. -/
structure Site where
  /-- The number of the rule among the children of its parent, that of the parent among the children
  of its own parent, and so on up to the root. -/
  way : List Nat
  name : String
  children : List ParseTree

namespace ParseTree

mutual

/-- The rules of a tree that stands at the end of a way, each after its children. -/
def sitesAt (way : List Nat) : ParseTree → List Site
  | rule name children => sitesBelow way 0 children ++ [⟨way, name, children⟩]
  | token .. => []
  | text _ => []

/-- The rules of some trees below the end of a way, numbered from `index` on. -/
def sitesBelow (way : List Nat) (index : Nat) : List ParseTree → List Site
  | [] => []
  | tree :: rest => sitesAt (index :: way) tree ++ sitesBelow way (index + 1) rest

end

/-- The rules of a tree, in the order in which they end. -/
def sites (tree : ParseTree) : List Site := tree.sitesAt []

end ParseTree

namespace Site

def tree (site : Site) : ParseTree := .rule site.name site.children

/-- The rule and those below it, in the order in which they end. -/
def nodes (site : Site) : List Site := site.tree.sitesAt site.way

/-- `parent` is the rule right above `site`. -/
def ChildOf (site parent : Site) : Prop := site.way.tail? = some parent.way

instance (site parent : Site) : Decidable (site.ChildOf parent) :=
  inferInstanceAs (Decidable (_ = _))

theorem ChildOf.length {site parent : Site} (child : site.ChildOf parent) :
    site.way.length = parent.way.length + 1 := by
  obtain ⟨way, name, children⟩ := site
  cases way with
  | nil => cases child
  | cons index way => exact congrArg (·.length + 1) (Option.some.inj child)

/-- Below some rule, `site` is in a part further left than `other`. -/
def LeftOf (site other : Site) : Prop :=
  ∃ way i j, i < j ∧ i :: way <:+ site.way ∧ j :: way <:+ other.way

/-- The rules among trees right below the end of a way, numbered from `index` on. -/
def among (way : List Nat) (index : Nat) : List ParseTree → List Site
  | [] => []
  | .rule name children :: rest => ⟨index :: way, name, children⟩ :: among way (index + 1) rest
  | _ :: rest => among way (index + 1) rest

/-- The rules among the children of a rule. -/
def parts (site : Site) : List Site := among site.way 0 site.children

theorem map_tree_among (way : List Nat) (index : Nat) (trees : List ParseTree) :
    (among way index trees).map tree = subtrees trees := by
  induction trees generalizing index with
  | nil => rfl
  | cons first rest ih =>
      cases first with
      | rule name children =>
          exact congrArg (ParseTree.rule name children :: ·) (ih (index + 1))
      | token kind lexeme place => exact ih (index + 1)
      | text content => exact ih (index + 1)

theorem map_tree_parts (site : Site) : site.parts.map tree = subtrees site.children :=
  map_tree_among _ _ _

theorem exists_way_of_mem_among {way : List Nat} {index : Nat} {trees : List ParseTree} {site : Site}
    (member : site ∈ among way index trees) : ∃ i, index ≤ i ∧ site.way = i :: way := by
  induction trees generalizing index with
  | nil => cases member
  | cons first rest ih =>
      have later (inside : site ∈ among way (index + 1) rest) :
          ∃ i, index ≤ i ∧ site.way = i :: way := by
        obtain ⟨i, least, same⟩ := ih inside
        exact ⟨i, by omega, same⟩
      cases first with
      | rule name children =>
          rcases List.mem_cons.1 member with rfl | inside
          · exact ⟨index, le_rfl, rfl⟩
          · exact later inside
      | token kind lexeme place => exact later member
      | text content => exact later member

theorem childOf_of_mem_parts {site part : Site} (member : part ∈ site.parts) :
    part.ChildOf site := by
  obtain ⟨i, -, same⟩ := exists_way_of_mem_among member
  rw [ChildOf, same]
  rfl

theorem suffix_of_mem_parts {site part : Site} (member : part ∈ site.parts) :
    site.way <:+ part.way := by
  obtain ⟨i, -, same⟩ := exists_way_of_mem_among member
  rw [same]
  exact List.suffix_cons _ _

theorem among_pairwise (way : List Nat) (index : Nat) (trees : List ParseTree) :
    (among way index trees).Pairwise LeftOf := by
  induction trees generalizing index with
  | nil => exact .nil
  | cons first rest ih =>
      cases first with
      | rule name children =>
          refine .cons (fun other member => ?_) (ih (index + 1))
          obtain ⟨j, greater, same⟩ := exists_way_of_mem_among member
          exact ⟨way, index, j, greater, List.suffix_rfl, same ▸ List.suffix_rfl⟩
      | token kind lexeme place => exact ih (index + 1)
      | text content => exact ih (index + 1)

/-- The parts of a rule stand from left to right. -/
theorem parts_pairwise (site : Site) : site.parts.Pairwise LeftOf := among_pairwise _ _ _

theorem sitesBelow_eq_flatMap (way : List Nat) (index : Nat) (trees : List ParseTree) :
    sitesBelow way index trees = (among way index trees).flatMap nodes := by
  induction trees generalizing index with
  | nil => rw [sitesBelow]; rfl
  | cons first rest ih =>
      rw [sitesBelow, ih]
      cases first with
      | rule name children => rfl
      | token kind lexeme place => rw [sitesAt]; rfl
      | text content => rw [sitesAt]; rfl

/-- The parts of a rule end before it does. -/
theorem nodes_eq (site : Site) : site.nodes = site.parts.flatMap nodes ++ [site] := by
  rw [nodes, tree, sitesAt, sitesBelow_eq_flatMap]
  rfl

theorem mem_nodes {site other : Site} :
    other ∈ site.nodes ↔ (∃ part ∈ site.parts, other ∈ part.nodes) ∨ other = site := by
  rw [nodes_eq, List.mem_append, List.mem_flatMap, List.mem_singleton]

theorem mem_nodes_self (site : Site) : site ∈ site.nodes := mem_nodes.2 (.inr rfl)

theorem size_le_of_mem_among {way : List Nat} {index : Nat} {trees : List ParseTree} {site : Site}
    (member : site ∈ among way index trees) : site.tree.size ≤ sizeAll trees := by
  induction trees generalizing index with
  | nil => cases member
  | cons first rest ih =>
      rw [sizeAll]
      cases first with
      | rule name children =>
          rcases List.mem_cons.1 member with rfl | inside
          · exact Nat.le_add_right _ _
          · exact Nat.le_add_left_of_le (ih inside)
      | token kind lexeme place => exact Nat.le_add_left_of_le (ih member)
      | text content => exact Nat.le_add_left_of_le (ih member)

/-- What holds of a rule if it holds of its parts holds of every rule. -/
theorem parts_induction {motive : Site → Prop}
    (step : ∀ site, (∀ part ∈ site.parts, motive part) → motive site) (site : Site) :
    motive site :=
  step site fun part _ => parts_induction step part
termination_by site.tree.size
decreasing_by
  have bound := size_le_of_mem_among ‹part ∈ site.parts›
  simp only [tree, size] at bound ⊢
  omega

theorem map_tree_nodes (site : Site) : site.nodes.map tree = site.tree.postorder := by
  induction site using parts_induction with
  | step site ih =>
      have parts : (site.parts.flatMap nodes).map tree =
          (site.parts.map tree).flatMap postorder := by
        rw [List.map_flatMap, List.flatMap_map]
        exact List.flatMap_congr ih
      rw [nodes_eq, List.map_append, parts, map_tree_parts, tree, postorder_rule]
      rfl

theorem suffix_of_mem_nodes {site other : Site} (member : other ∈ site.nodes) :
    site.way <:+ other.way := by
  induction site using parts_induction with
  | step site ih =>
      rcases mem_nodes.1 member with ⟨part, inside, below⟩ | rfl
      · exact (suffix_of_mem_parts inside).trans (ih part inside below)
      · exact List.suffix_rfl

/-- The parent of a rule that stands lower than another is not above that. -/
theorem exists_parent {site other : Site} (member : other ∈ site.parts.flatMap nodes) :
    ∃ parent ∈ site.nodes, other.ChildOf parent := by
  induction site using parts_induction generalizing other with
  | step site ih =>
      obtain ⟨part, inside, below⟩ := List.mem_flatMap.1 member
      rw [nodes_eq, List.mem_append, List.mem_singleton] at below
      rcases below with deeper | rfl
      · obtain ⟨parent, found, child⟩ := ih part inside deeper
        exact ⟨parent, mem_nodes.2 (.inl ⟨part, inside, found⟩), child⟩
      · exact ⟨site, mem_nodes_self site, childOf_of_mem_parts inside⟩

/-- What is left of a rule is left of what is below it. -/
theorem LeftOf.mono {site other site' other' : Site} (left : site.LeftOf other)
    (below : site.way <:+ site'.way) (below' : other.way <:+ other'.way) :
    site'.LeftOf other' := by
  obtain ⟨way, i, j, less, within, within'⟩ := left
  exact ⟨way, i, j, less, within.trans below, within'.trans below'⟩

theorem LeftOf.way_ne {site other : Site} (left : site.LeftOf other) : site.way ≠ other.way := by
  obtain ⟨way, i, j, less, within, within'⟩ := left
  intro same
  rw [same] at within
  have tails : i :: way = j :: way :=
    (List.suffix_of_suffix_length_le within within' le_rfl).eq_of_length rfl
  cases tails
  omega

/-- No two rules of a tree are at the same place. -/
theorem nodes_pairwise (site : Site) :
    site.nodes.Pairwise fun earlier later => earlier.way ≠ later.way := by
  induction site using parts_induction with
  | step site ih =>
      rw [nodes_eq, List.pairwise_append]
      refine ⟨?parts, List.pairwise_singleton _ _, ?top⟩
      case parts =>
        rw [List.pairwise_flatMap]
        refine ⟨ih, site.parts_pairwise.imp fun left other below other' below' => ?_⟩
        exact (left.mono (suffix_of_mem_nodes below) (suffix_of_mem_nodes below')).way_ne
      case top =>
        intro other below last member same
        rw [List.mem_singleton.1 member] at same
        obtain ⟨part, inside, deeper⟩ := List.mem_flatMap.1 below
        obtain ⟨i, -, longer⟩ := exists_way_of_mem_among inside
        have bound := (suffix_of_mem_nodes deeper).length_le
        rw [longer, same, List.length_cons] at bound
        omega

/-! ## Moments -/

/-- `Moment site ended next coming tops`: at and below `site`, the rules `ended` have ended, `next` is
the next one to end, and `coming` are those behind it. On the way from `site` to `next`, the parts
further left are over, and so are the parts of `next`: these are `tops`. -/
inductive Moment : Site → List Site → Site → List Site → List Site → Prop
  | here (site : Site) : Moment site (site.parts.flatMap nodes) site [] site.parts
  | inside {site part next : Site} {earlier later ended coming tops : List Site} :
      site.parts = earlier ++ part :: later → Moment part ended next coming tops →
        Moment site (earlier.flatMap nodes ++ ended) next
          (coming ++ (later.flatMap nodes ++ [site])) (earlier ++ tops)

/-- What stands at a place in a list that is put together from pieces stands in one of them. -/
theorem exists_piece {α β : Type} {f : α → List β} {sources : List α} {front back : List β} {b : β}
    (split : sources.flatMap f = front ++ b :: back) :
    ∃ earlier source later front' back', sources = earlier ++ source :: later ∧
      f source = front' ++ b :: back' ∧ front = earlier.flatMap f ++ front' ∧
      back = back' ++ later.flatMap f := by
  induction sources generalizing front with
  | nil => simp at split
  | cons source rest ih =>
      rw [List.flatMap_cons] at split
      -- a place in another piece
      have later {more : List β} (inside : rest.flatMap f = more ++ b :: back)
          (before : front = f source ++ more) :
          ∃ earlier other later front' back', source :: rest = earlier ++ other :: later ∧
            f other = front' ++ b :: back' ∧ front = earlier.flatMap f ++ front' ∧
            back = back' ++ later.flatMap f := by
        obtain ⟨earlier, other, later, front', back', rfl, here, rfl, rfl⟩ := ih inside
        exact ⟨source :: earlier, other, later, front', back', rfl, here, by simp [before], rfl⟩
      rcases List.append_eq_append_iff.1 split with ⟨more, before, inside⟩ | ⟨more, here, behind⟩
      · exact later inside before
      · cases more with
        | nil =>
            have first : rest.flatMap f = [] ++ b :: back := behind.symm
            exact later first (by simpa using here.symm)
        | cons c more =>
            cases behind
            exact ⟨[], source, rest, front, more, rfl, here, rfl, rfl⟩

/-- Between any two rules that end one after the other, there is a moment. -/
theorem exists_moment {site next : Site} {ended coming : List Site}
    (split : site.nodes = ended ++ next :: coming) :
    ∃ tops, Moment site ended next coming tops := by
  induction site using parts_induction generalizing ended coming with
  | step site ih =>
      rw [nodes_eq] at split
      rcases List.eq_nil_or_concat coming with rfl | ⟨more, last, rfl⟩
      · obtain ⟨rfl, same⟩ := List.append_inj' split rfl
        cases same
        exact ⟨_, .here _⟩
      · rw [List.concat_eq_append, ← List.cons_append, ← List.append_assoc] at split
        obtain ⟨below, same⟩ := List.append_inj' split rfl
        cases same
        obtain ⟨earlier, part, later, front, back, parts, here, rfl, rfl⟩ := exists_piece below
        have inside : part ∈ site.parts := by simp [parts]
        obtain ⟨tops, moment⟩ := ih part inside here
        rw [List.concat_eq_append, List.append_assoc]
        exact ⟨_, .inside parts moment⟩

section

variable {site next : Site} {ended coming tops : List Site}

theorem Moment.nodes_eq (moment : Moment site ended next coming tops) :
    site.nodes = ended ++ next :: coming := by
  induction moment with
  | here site => exact site.nodes_eq
  | @inside site part next earlier later ended coming tops parts _ ih =>
      rw [site.nodes_eq, parts, List.flatMap_append, List.flatMap_cons, ih]
      simp

/-- What has ended are the rules at and below the parts that are over. -/
theorem Moment.flatMap_nodes (moment : Moment site ended next coming tops) :
    tops.flatMap nodes = ended := by
  induction moment with
  | here site => rfl
  | inside _ _ ih => rw [List.flatMap_append, ih]

/-- The parts of the next rule are over, and they are the last ones. The parents of all others are
still to come, behind the next rule. -/
theorem Moment.exists_others (moment : Moment site ended next coming tops) :
    ∃ others, tops = others ++ next.parts ∧
      ∀ other ∈ others, ∃ parent ∈ coming, other.ChildOf parent := by
  induction moment with
  | here site => exact ⟨[], rfl, nofun⟩
  | @inside site part next earlier later ended coming tops parts _ ih =>
      obtain ⟨others, rfl, above⟩ := ih
      refine ⟨earlier ++ others, (List.append_assoc _ _ _).symm, fun other member => ?_⟩
      rcases List.mem_append.1 member with inside | inside
      · exact ⟨site, by simp, childOf_of_mem_parts (by simp [parts, inside])⟩
      · obtain ⟨parent, found, child⟩ := above other inside
        exact ⟨parent, List.mem_append_left _ found, child⟩

/-- The parts that are over stand from left to right. -/
theorem Moment.pairwise (moment : Moment site ended next coming tops) : tops.Pairwise LeftOf := by
  induction moment with
  | here site => exact site.parts_pairwise
  | @inside site part next earlier later ended coming tops parts moment ih =>
      have siblings := site.parts_pairwise
      rw [parts, List.pairwise_append] at siblings
      obtain ⟨left, -, before⟩ := siblings
      refine List.pairwise_append.2 ⟨left, ih, fun other member top inside => ?_⟩
      have within : top ∈ part.nodes := by
        rw [moment.nodes_eq, ← moment.flatMap_nodes]
        exact List.mem_append_left _ (List.mem_flatMap.2 ⟨top, inside, top.mem_nodes_self⟩)
      exact (before other member part List.mem_cons_self).mono List.suffix_rfl
        (suffix_of_mem_nodes within)

end

end Site

/-! ## Rules whose parents have not ended -/

open Site

/-- Of some rules that have ended, those whose parents are not among them. -/
def pending (ended : List Site) : List Site :=
  ended.filter fun site => ∀ other ∈ ended, ¬ site.ChildOf other

/-- Side by side, only the topmost rules are pending. -/
theorem pending_flatMap {tops : List Site}
    (orphans : ∀ top ∈ tops, ∀ other ∈ tops.flatMap nodes, ¬ top.ChildOf other) :
    pending (tops.flatMap nodes) = tops := by
  have each : ∀ top ∈ tops, top.nodes.filter (fun site =>
      ∀ other ∈ tops.flatMap nodes, ¬ site.ChildOf other) = [top] := by
    intro top member
    have below : (top.parts.flatMap nodes).filter (fun site =>
        ∀ other ∈ tops.flatMap nodes, ¬ site.ChildOf other) = [] := by
      rw [List.filter_eq_nil_iff]
      intro site inside
      obtain ⟨parent, found, child⟩ := exists_parent inside
      have among : parent ∈ tops.flatMap nodes := List.mem_flatMap.2 ⟨top, member, found⟩
      exact fun orphan => of_decide_eq_true orphan parent among child
    rw [nodes_eq, List.filter_append, below, List.nil_append, List.filter_singleton,
      decide_eq_true (orphans top member)]
    rfl
  rw [pending, List.filter_flatMap, List.flatMap_congr each, List.flatMap_singleton']

/-- When a rule has ended, it is all that is pending at and below it. -/
theorem pending_nodes (site : Site) : pending site.nodes = [site] := by
  have alone : site.nodes = [site].flatMap nodes := (List.flatMap_singleton nodes site).symm
  rw [alone]
  refine pending_flatMap fun top member other inside child => ?_
  rw [List.mem_singleton.1 member] at child
  have bound := (suffix_of_mem_nodes (alone ▸ inside)).length_le
  rw [child.length] at bound
  omega

section

variable {site next : Site} {ended coming : List Site}

theorem pending_of_moment {tops : List Site} (moment : Moment site ended next coming tops) :
    pending ended = tops := by
  rw [← moment.flatMap_nodes]
  refine pending_flatMap fun top member other inside child => ?_
  rw [moment.flatMap_nodes] at inside
  -- the parent of a part that is over is still to come
  have later : ∃ parent ∈ next :: coming, top.ChildOf parent := by
    obtain ⟨others, rfl, above⟩ := moment.exists_others
    rcases List.mem_append.1 member with found | found
    · obtain ⟨parent, behind, childOf⟩ := above top found
      exact ⟨parent, List.mem_cons_of_mem _ behind, childOf⟩
    · exact ⟨next, List.mem_cons_self, childOf_of_mem_parts found⟩
  obtain ⟨parent, behind, childOf⟩ := later
  have places := site.nodes_pairwise
  rw [moment.nodes_eq, List.pairwise_append] at places
  exact places.2.2 other inside parent behind (Option.some.inj (child.symm.trans childOf))

/-- The pending rules are the parts that are over; those of the next rule come last, and no others
among them are its own. -/
theorem exists_others (split : site.nodes = ended ++ next :: coming) :
    ∃ others, pending ended = others ++ next.parts ∧ ∀ other ∈ others, ¬ other.ChildOf next := by
  obtain ⟨tops, moment⟩ := exists_moment split
  obtain ⟨others, rfl, above⟩ := moment.exists_others
  refine ⟨others, pending_of_moment moment, fun other member child => ?_⟩
  obtain ⟨parent, behind, childOf⟩ := above other member
  have places := site.nodes_pairwise
  rw [split, List.pairwise_append, List.pairwise_cons] at places
  exact places.2.1.1 parent behind (Option.some.inj (child.symm.trans childOf))

/-- The pending rules stand from left to right. -/
theorem pending_pairwise (split : site.nodes = ended ++ coming) :
    (pending ended).Pairwise LeftOf := by
  cases coming with
  | nil =>
      rw [List.append_nil] at split
      rw [← split, pending_nodes]
      exact List.pairwise_singleton _ _
  | cons next coming =>
      obtain ⟨tops, moment⟩ := exists_moment split
      rw [pending_of_moment moment]
      exact moment.pairwise

/-- What has ended are the rules at and below the pending ones. -/
theorem flatMap_pending (split : site.nodes = ended ++ coming) :
    (pending ended).flatMap nodes = ended := by
  cases coming with
  | nil =>
      rw [List.append_nil] at split
      rw [← split, pending_nodes, List.flatMap_singleton]
  | cons next coming =>
      obtain ⟨tops, moment⟩ := exists_moment split
      rw [pending_of_moment moment, moment.flatMap_nodes]

end

/-! ## The stack -/

/-- The expressions of some rules. -/
def expressions (width : Width) (sites : List Site) : Except Failure (List Expr) :=
  sites.mapM fun site => BuilderKind.recursive.build width site.tree

namespace Builder

/-- The stack of a builder holds the expressions of some rules, that of the first one at the
bottom. -/
def Holds (builder : Builder) (width : Width) (sites : List Site) : Prop :=
  ∃ es, expressions width sites = .ok es ∧ builder = ⟨width, .building es.reverse⟩

theorem Holds.depth {builder : Builder} {width : Width} {sites : List Site}
    (holds : builder.Holds width sites) : builder.depth = sites.length := by
  obtain ⟨es, read, rfl⟩ := holds
  rw [← length_of_mapM_ok read]
  exact List.length_reverse

/-- When a sum ends whose parts are on top of the stack, it takes exactly them off. -/
theorem Holds.endSum {builder : Builder} {width : Width} {others : List Site} {node : Site}
    (holds : builder.Holds width (others ++ node.parts)) (shaped : Shaped node.tree)
    (isSum : node.name = "sum") :
    ∃ next, builder.endNode node.tree = .ok next ∧ next.Holds width (others ++ [node]) := by
  obtain ⟨way, name, children⟩ := node
  obtain rfl : name = "sum" := isSum
  obtain ⟨es, read, rfl⟩ := holds
  rw [expressions, List.mapM_append] at read
  obtain ⟨below, readOthers, read⟩ := exists_of_bind_ok read
  obtain ⟨addends, readParts, same⟩ := exists_of_bind_ok read
  cases same
  obtain ⟨nonempty, named⟩ := shaped.parts
  have readSum : (subtrees children).mapM (toExpr width) = .ok addends := by
    rw [← map_tree_parts ⟨way, "sum", children⟩, List.mapM_map]
    exact readParts
  have count := length_of_mapM_ok readSum
  obtain ⟨e, sum⟩ : ∃ e, chained addends = .ok e := by
    cases addends with
    | nil => exact absurd (List.length_eq_zero_iff.1 count.symm) nonempty
    | cons first rest => exact ⟨_, rfl⟩
  have built : BuilderKind.recursive.build width (.rule "sum" children) = .ok e := by
    rw [BuilderKind.build, toExpr_shaped_sum width named, readSum]
    exact sum
  refine ⟨⟨width, .building (e :: below.reverse)⟩, ?ends, below ++ [e], ?holds, by simp⟩
  case ends =>
    rw [List.reverse_append]
    exact endNode_sum count sum _
  case holds =>
    rw [expressions, List.mapM_append, readOthers, List.mapM_cons, List.mapM_nil]
    simp only [tree, built]
    rfl

theorem shaped_of_mem_nodes {site other : Site} (shaped : Shaped site.tree)
    (member : other ∈ site.nodes) : Shaped other.tree := by
  refine shaped.of_mem_postorder ?_
  rw [← map_tree_nodes]
  exact List.mem_map_of_mem member

section

variable {site : Site} {ended coming : List Site}

/-- A walk comes by every moment. -/
theorem walk_of_split (builder : Builder) (split : site.nodes = ended ++ coming) :
    builder.walk site.tree = (do
      let builder ← builder.endAll (ended.map tree)
      let builder ← builder.endAll (coming.map tree)
      builder.finish.mapError fun failure => ⟨failure, builder⟩) := by
  have events : site.tree.postorder = ended.map tree ++ coming.map tree := by
    rw [← map_tree_nodes, split, List.map_append]
  rw [tree, walk_rule, ← tree, events, endAll_append]
  cases builder.endAll (ended.map tree) <;> rfl

theorem shaped_of_mem_pending (shaped : Shaped site.tree) (split : site.nodes = ended ++ coming)
    {top : Site} (member : top ∈ pending ended) : Shaped top.tree := by
  refine shaped_of_mem_nodes shaped ?_
  rw [split]
  exact List.mem_append_left _ (List.mem_of_mem_filter member)

/-- The rules that have ended leave the expressions of the pending ones on the stack, or fail as these
do. -/
theorem pushes_pending (width : Width) (shaped : Shaped site.tree)
    (split : site.nodes = ended ++ coming) :
    Pushes width [] (expressions width (pending ended))
      ((new width).endAll (ended.map tree)) := by
  have events : ended.map tree = ((pending ended).map tree).flatMap postorder := by
    conv_lhs => rw [← flatMap_pending split]
    rw [List.map_flatMap, List.flatMap_map]
    exact List.flatMap_congr fun top _ => top.map_tree_nodes
  have pushes : Pushes width [] (((pending ended).map tree).mapM (toExpr width))
      (endAll ⟨width, .building []⟩ (((pending ended).map tree).flatMap postorder)) := by
    refine pushes_all (fun top member => pushes_shaped width ?_) []
    obtain ⟨other, found, rfl⟩ := List.mem_map.1 member
    exact shaped_of_mem_pending shaped split found
  rw [← events, List.mapM_map] at pushes
  exact pushes

theorem holds_pending {width : Width} (shaped : Shaped site.tree)
    (split : site.nodes = ended ++ coming) {builder : Builder}
    (reached : (new width).endAll (ended.map tree) = .ok builder) :
    builder.Holds width (pending ended) := by
  have pushes := pushes_pending width shaped split
  rw [reached] at pushes
  generalize read : expressions width (pending ended) = result at pushes
  cases pushes with
  | pushed es => exact ⟨es, read, by rw [List.append_nil]⟩

/-- Only a literal stops a walk on a new builder before the tree has ended. -/
theorem exists_literal_of_stop {width : Width} (shaped : Shaped site.tree)
    (split : site.nodes = ended ++ coming) {stop : Stop}
    (failed : (new width).endAll (ended.map tree) = .error stop) :
    ∃ lexeme place, Literal.read width lexeme place = .error stop.failure := by
  have pushes := pushes_pending width shaped split
  rw [failed] at pushes
  generalize read : expressions width (pending ended) = result at pushes
  cases pushes with
  | stopped failure left =>
      obtain ⟨top, member, fails⟩ := exists_of_mapM_error read
      exact exists_literal_of_failure (shaped_of_mem_pending shaped split member) fails

end

/-- What a builder is like when the rules `ended` have ended and the rules `coming` have not. -/
structure AtMoment (builder : Builder) (width : Width) (ended coming : List Site) : Prop where
  /-- The stack holds the expressions of the rules that have ended and whose parents have not, -/
  stack : builder.Holds width (pending ended)
  /-- from left to right. -/
  leftToRight : (pending ended).Pairwise LeftOf
  /-- When all rules have ended, one expression is left. -/
  whole : coming = [] → builder.depth = 1
  /-- When a sum ends, its parts are on top of the stack, and below them nothing of its own. It takes
  its parts off and no others. -/
  sum : ∀ node later, coming = node :: later → node.name = "sum" →
    ∃ others, pending ended = others ++ node.parts ∧ (∀ other ∈ others, ¬ other.ChildOf node) ∧
      ∃ next, builder.endNode node.tree = .ok next ∧ next.Holds width (others ++ [node])

/-- A walk lets the rules of a tree end one after the other. At every moment at which no literal has
failed, the stack holds the expressions of the rules that have ended and whose parents have not. -/
theorem walk_moments (width : Width) {tree : ParseTree} (shaped : Shaped tree)
    {ended coming : List Site} (split : tree.sites = ended ++ coming) :
    ((new width).walk tree = do
      let builder ← (new width).endAll (ended.map Site.tree)
      let builder ← builder.endAll (coming.map Site.tree)
      builder.finish.mapError fun failure => ⟨failure, builder⟩) ∧
    (∀ builder, (new width).endAll (ended.map Site.tree) = .ok builder →
      builder.AtMoment width ended coming) ∧
    ∀ stop, (new width).endAll (ended.map Site.tree) = .error stop →
      ∃ lexeme place, Literal.read width lexeme place = .error stop.failure := by
  obtain ⟨name, children, rfl⟩ := shaped.exists_rule
  let root : Site := ⟨[], name, children⟩
  have rootShaped : Shaped root.tree := shaped
  have rootSplit : root.nodes = ended ++ coming := split
  refine ⟨walk_of_split _ rootSplit, fun builder reached => ?moment, fun stop failed =>
    exists_literal_of_stop rootShaped rootSplit failed⟩
  have holds := holds_pending rootShaped rootSplit reached
  refine ⟨holds, pending_pairwise rootSplit, ?whole, ?sum⟩
  case whole =>
    rintro rfl
    rw [List.append_nil] at rootSplit
    rw [holds.depth, ← rootSplit, pending_nodes]
    rfl
  case sum =>
    rintro node later rfl isSum
    obtain ⟨others, tops, notOwn⟩ := exists_others rootSplit
    have within : node ∈ root.nodes := by simp [rootSplit]
    rw [tops] at holds
    exact ⟨others, tops, notOwn, holds.endSum (shaped_of_mem_nodes rootShaped within) isSum⟩

/-- In the midst of a walk, before the inner sum of `1+(2+3)` ends, three numbers are on the stack; the
inner sum takes two of them. -/
theorem walk_moments_inner_sum :
    ∃ tree ended coming builder, ParseTree.ofSource "1+(2+3)" = .ok tree ∧
      tree.sites = ended ++ coming ∧
      (new .bits8).endAll (ended.map Site.tree) = .ok builder ∧
      builder.AtMoment .bits8 ended coming ∧ coming.head?.map Site.name = some "sum" ∧
      (pending ended).map Site.way = [[0, 0], [0, 1, 2, 0], [2, 1, 2, 0]] ∧ builder.depth = 3 := by
  let one := ParseTree.rule "primitive" [.token "NUMBER" "1" ⟨1, 1⟩]
  let two := ParseTree.rule "primitive" [.token "NUMBER" "2" ⟨1, 4⟩]
  let three := ParseTree.rule "primitive" [.token "NUMBER" "3" ⟨1, 6⟩]
  let inner := ParseTree.rule "sum" [two, .token "PLUS" "+" ⟨1, 5⟩, three]
  let group := ParseTree.rule "primitive" [.token "LPAR" "(" ⟨1, 3⟩, inner, .token "RPAR" ")" ⟨1, 7⟩]
  let whole := ParseTree.rule "root" [.rule "sum" [one, .token "PLUS" "+" ⟨1, 2⟩, group]]
  have read : ParseTree.ofSource "1+(2+3)" = .ok whole := by cbv
  have shaped : Shaped whole := shaped_of_ofSource read (by simp [whole, postorder_rule])
  have split : whole.sites = whole.sites.take 3 ++ whole.sites.drop 3 :=
    (List.take_append_drop 3 whole.sites).symm
  obtain ⟨-, moment, -⟩ := walk_moments .bits8 shaped split
  have reached : (new .bits8).endAll ((whole.sites.take 3).map Site.tree) =
      .ok ⟨.bits8, .building [.number 3 (some ⟨1, 6⟩), .number 2 (some ⟨1, 4⟩),
        .number 1 (some ⟨1, 1⟩)]⟩ := by cbv
  exact ⟨whole, _, _, _, read, split, reached, moment _ reached, by cbv, by cbv, rfl⟩

end Builder

end SumCalc
