import Funnel.Grouping
import Mathlib.Data.Set.Card

/-!
# Laws of sorting and grouping

The groups of a list are its filters, one for each key that occurs, and the keys ascend. Hence a
statement about a group is a statement about the elements of one key.
-/

namespace Funnel

open Std

variable {α β κ : Type} [Ord κ]

/-! ## Pairs -/

theorem compare_pair [Ord α] [Ord β] (a b : α × β) :
    compare a b = (compare a.1 b.1).then (compare a.2 b.2) := rfl

theorem compare_pair_eq_lt [Ord α] [LawfulEqOrd α] [Ord β] {a b : α × β} :
    compare a b = .lt ↔ compare a.1 b.1 = .lt ∨ a.1 = b.1 ∧ compare a.2 b.2 = .lt := by
  rw [compare_pair, Ordering.then_eq_lt, LawfulEqOrd.compare_eq_iff_eq]

theorem isLE_compare_pair [Ord α] [LawfulEqOrd α] [Ord β] {a b : α × β} :
    (compare a b).isLE ↔ compare a.1 b.1 = .lt ∨ a.1 = b.1 ∧ (compare a.2 b.2).isLE := by
  rw [compare_pair, Ordering.isLE_then_iff_or, LawfulEqOrd.compare_eq_iff_eq]

/-- Keys of which one stands in front of the other are different. -/
theorem ne_of_compare_lt [ReflOrd κ] {a b : κ} (h : compare a b = .lt) : a ≠ b := by
  rintro rfl
  rw [ReflOrd.compare_self] at h
  cases h

/-! ## Ascending lists -/

/-- The keys of a list strictly ascend. -/
def Ascending (key : α → κ) (xs : List α) : Prop :=
  xs.Pairwise fun a b => compare (key a) (key b) = .lt

namespace Ascending

variable {key : α → κ} {xs ys : List α}

theorem sublist (h : Ascending key xs) (hs : ys.Sublist xs) : Ascending key ys :=
  List.Pairwise.sublist hs h

theorem filter (h : Ascending key xs) (p : α → Bool) : Ascending key (xs.filter p) :=
  h.sublist List.filter_sublist

theorem map {f : β → α} {zs : List β} :
    Ascending key (zs.map f) ↔ Ascending (fun z => key (f z)) zs :=
  List.pairwise_map

theorem congr_map {zs : List β} {key' : β → κ} (h : Ascending key xs)
    (heq : xs.map key = zs.map key') : Ascending key' zs := by
  have hkeys : Ascending id (xs.map key) := Ascending.map.2 h
  rw [heq] at hkeys
  exact (Ascending.map (f := key')).1 hkeys

theorem nodup_map [ReflOrd κ] (h : Ascending key xs) : (xs.map key).Nodup := by
  exact List.pairwise_map.2 (List.Pairwise.imp ne_of_compare_lt h)

theorem nodup [ReflOrd κ] (h : Ascending key xs) : xs.Nodup :=
  List.Nodup.of_map key h.nodup_map

/-- Of two members the one of smaller key stands first. -/
theorem mem_tail_of_lt [TransOrd κ] {before after : List α} {a b : α}
    (h : Ascending key (before ++ a :: after)) (hb : b ∈ before ++ a :: after)
    (hlt : compare (key a) (key b) = .lt) : b ∈ after := by
  obtain ⟨-, -, hcross⟩ := List.pairwise_append.1 h
  rcases List.mem_append.1 hb with hb | hb
  · exact absurd hlt (OrientedCmp.not_lt_of_lt (hcross b hb a (List.mem_cons_self ..)))
  · rcases List.mem_cons.1 hb with rfl | hb
    · exact absurd rfl (ne_of_compare_lt hlt)
    · exact hb

theorem lt_of_mem_tail {before after : List α} {a b : α}
    (h : Ascending key (before ++ a :: after)) (hb : b ∈ after) :
    compare (key a) (key b) = .lt :=
  (List.pairwise_cons.1 (List.pairwise_append.1 h).2.1).1 b hb

theorem lt_of_mem_init {before after : List α} {a b : α}
    (h : Ascending key (before ++ a :: after)) (hb : b ∈ before) :
    compare (key b) (key a) = .lt :=
  (List.pairwise_append.1 h).2.2 b hb a (List.mem_cons_self ..)

/-- A member stands behind the members below it, so that those not above it count up to its
place. -/
theorem length_filter_isLE [TransOrd κ] {before after : List α} {a : α}
    (h : Ascending key (before ++ a :: after)) :
    ((before ++ a :: after).filter fun b => (compare (key b) (key a)).isLE).length =
      before.length + 1 := by
  have hbefore : before.filter (fun b => (compare (key b) (key a)).isLE) = before := by
    refine List.filter_eq_self.2 fun b hb => ?_
    rw [h.lt_of_mem_init hb]
    rfl
  have hafter : after.filter (fun b => (compare (key b) (key a)).isLE) = [] := by
    refine List.filter_eq_nil_iff.2 fun b hb => ?_
    rw [OrientedOrd.eq_swap (a := key b), h.lt_of_mem_tail hb]
    decide
  have hself : (compare (key a) (key a)).isLE := ReflOrd.isLE_rfl
  rw [List.filter_append, List.filter_cons, if_pos hself, hbefore, hafter, List.length_append,
    List.length_singleton]

/-- The members count up to the length of the list. -/
theorem map_length_filter_isLE [TransOrd κ] (h : Ascending key xs) :
    xs.map (fun a => (xs.filter fun b => (compare (key b) (key a)).isLE).length) =
      List.range' 1 xs.length := by
  refine List.ext_getElem (by simp) fun i hi _ => ?_
  have hlt : i < xs.length := by simpa using hi
  have hsplit : xs = xs.take i ++ xs[i] :: xs.drop (i + 1) := by
    rw [← List.drop_eq_getElem_cons hlt, List.take_append_drop]
  have hplace : (xs.filter fun b => (compare (key b) (key xs[i])).isLE).length =
      (xs.take i).length + 1 := by
    have hasc := h
    rw [hsplit] at hasc
    have hcount := hasc.length_filter_isLE
    rwa [← hsplit] at hcount
  rw [List.getElem_map, hplace, List.length_take_of_le hlt.le, List.getElem_range']
  omega

/-- A member below all others stands first. -/
theorem head?_eq_some [OrientedOrd κ] (h : Ascending key xs) {a : α} (ha : a ∈ xs)
    (hleast : ∀ b ∈ xs, b = a ∨ compare (key a) (key b) = .lt) : xs.head? = some a := by
  cases xs with
  | nil => cases ha
  | cons b xs =>
    rcases List.mem_cons.1 ha with rfl | ha
    · rfl
    · rcases hleast b (List.mem_cons_self ..) with rfl | hlt
      · rfl
      · exact absurd hlt (OrientedCmp.not_lt_of_lt ((List.pairwise_cons.1 h).1 a ha))

/-- A list with a member has a first one, which is not above it. -/
theorem exists_head?_of_mem [ReflOrd κ] (h : Ascending key xs) {a : α} (ha : a ∈ xs) :
    ∃ first ∈ xs, xs.head? = some first ∧ (compare (key first) (key a)).isLE := by
  cases xs with
  | nil => cases ha
  | cons first xs =>
    refine ⟨first, List.mem_cons_self .., rfl, ?_⟩
    rcases List.mem_cons.1 ha with rfl | ha
    · exact ReflOrd.isLE_rfl
    · rw [(List.pairwise_cons.1 h).1 a ha]
      rfl

theorem eq_of_perm [TransOrd κ] (hx : Ascending key xs) (hy : Ascending key ys)
    (h : xs.Perm ys) : xs = ys := by
  refine List.Perm.eq_of_pairwise ?_ hx hy h
  intro a b _ _ hab hba
  exact absurd hba (OrientedCmp.not_lt_of_lt hab)

/-- An ascending list is determined by its members. -/
theorem eq_of_mem_iff [TransOrd κ] (hx : Ascending key xs) (hy : Ascending key ys)
    (h : ∀ a, a ∈ xs ↔ a ∈ ys) : xs = ys :=
  hx.eq_of_perm hy ((List.perm_ext_iff_of_nodup hx.nodup hy.nodup).2 h)

end Ascending

/-! ## Sorting -/

@[simp]
theorem mem_sortOn {key : α → κ} {xs : List α} {a : α} : a ∈ sortOn key xs ↔ a ∈ xs :=
  List.mem_mergeSort

theorem sortOn_eq_self {key : α → κ} {xs : List α}
    (h : xs.Pairwise fun a b => (compare (key a) (key b)).isLE) : sortOn key xs = xs :=
  List.mergeSort_of_pairwise h

/-- Where a function keeps the order of keys, a mapped list is sorted as the list is. -/
theorem sortOn_map {ι : Type} [Ord ι] {key : α → κ} {key' : β → ι} {f : β → α}
    (h : ∀ a b, compare (key (f a)) (key (f b)) = compare (key' a) (key' b)) (xs : List β) :
    sortOn key (xs.map f) = (sortOn key' xs).map f :=
  (List.map_mergeSort fun a _ b _ => by rw [h]).symm

section Sorting

variable [TransOrd κ]

theorem pairwise_sortOn (key : α → κ) (xs : List α) :
    (sortOn key xs).Pairwise fun a b => (compare (key a) (key b)).isLE := by
  refine List.pairwise_mergeSort (fun a b c hab hbc => ?_) (fun a b => ?_) xs
  · exact TransCmp.isLE_trans hab hbc
  · rw [OrientedOrd.eq_swap (a := key b)]
    cases compare (key a) (key b) <;> rfl

/-- A value that is found first in a sorted list is that of an element with the least key of those
that have a value. -/
theorem exists_first_of_findSome?_sortOn {key : α → κ} {f : α → Option β} {xs : List α} {b : β}
    (h : (sortOn key xs).findSome? f = some b) :
    ∃ a ∈ xs, f a = some b ∧ ∀ x ∈ xs, (f x).isSome → (compare (key a) (key x)).isLE := by
  obtain ⟨before, a, after, hsplit, ha, hbefore⟩ := List.findSome?_eq_some_iff.1 h
  have hpairwise := pairwise_sortOn key xs
  have hmem : ∀ {x}, x ∈ xs ↔ x ∈ before ++ a :: after := fun {x} => by rw [← hsplit, mem_sortOn]
  rw [hsplit] at hpairwise
  refine ⟨a, hmem.2 (by simp), ha, fun x hx hset => ?_⟩
  have hnot : x ∉ before := fun hx => by simp [hbefore x hx] at hset
  rcases List.mem_cons.1 ((List.mem_append.1 (hmem.1 hx)).resolve_left hnot) with rfl | hafter
  · exact ReflOrd.isLE_rfl
  · exact (List.pairwise_cons.1 (List.pairwise_append.1 hpairwise).2.1).1 x hafter

/-- Sorting keeps the order of equal keys: it is sorting by key and then by place. -/
theorem map_fst_sortOn_zipIdx (key : α → κ) (xs : List α) :
    (sortOn (fun item : α × Nat => (key item.1, item.2)) xs.zipIdx).map Prod.fst =
      sortOn key xs := by
  have horder : (fun a b : α × Nat => (compare (key a.1, a.2) (key b.1, b.2)).isLE) =
      List.zipIdxLE fun a b => (compare (key a) (key b)).isLE := by
    funext a b
    have hplaces : (compare a.2 b.2).isLE = decide (a.2 ≤ b.2) :=
      Bool.eq_iff_iff.2 (Nat.isLE_compare.trans decide_eq_true_iff.symm)
    rw [compare_pair, List.zipIdxLE, OrientedOrd.eq_swap (a := key b.1)]
    cases compare (key a.1) (key b.1) <;> simp [hplaces]
  rw [sortOn, horder, List.mergeSort_zipIdx]
  rfl

theorem exists_place_of_findSome?_sortOn {key : α → κ} {f : α → Option β} {xs : List α} {b : β}
    (h : (sortOn key xs).findSome? f = some b) :
    ∃ (i : Nat) (a : α), xs[i]? = some a ∧ f a = some b ∧
      ∀ (j : Nat) (x : α), xs[j]? = some x → (f x).isSome →
        (compare (key a, i) (key x, j)).isLE := by
  rw [← map_fst_sortOn_zipIdx, List.findSome?_map] at h
  obtain ⟨⟨a, i⟩, hmem, ha, hleast⟩ := exists_first_of_findSome?_sortOn h
  refine ⟨i, a, List.mem_zipIdx_iff_getElem?.1 hmem, ha, fun j x hx hset => ?_⟩
  exact hleast (x, j) (List.mem_zipIdx_iff_getElem?.2 hx) hset

/-- The value that is found first in a sorted list is that of the element which, of those with a
value, has the least key and of those of equal keys stands first in the list. -/
theorem findSome?_sortOn_eq_some_iff {key : α → κ} {f : α → Option β} {xs : List α} {b : β} :
    (sortOn key xs).findSome? f = some b ↔
      ∃ (i : Nat) (a : α), xs[i]? = some a ∧ f a = some b ∧
        ∀ (j : Nat) (x : α), xs[j]? = some x → (f x).isSome →
          (compare (key a, i) (key x, j)).isLE := by
  refine ⟨exists_place_of_findSome?_sortOn, ?_⟩
  rintro ⟨i, a, hi, ha, hleast⟩
  have hset : ((sortOn key xs).findSome? f).isSome :=
    List.findSome?_isSome_iff.2 ⟨a, mem_sortOn.2 (List.mem_of_getElem? hi), by rw [ha]; rfl⟩
  obtain ⟨b', hb'⟩ := Option.isSome_iff_exists.1 hset
  obtain ⟨j, x, hj, hx, hleast'⟩ := exists_place_of_findSome?_sortOn hb'
  -- both elements come first, so they stand at one place
  have heq := OrientedCmp.isLE_antisymm (hleast j x hj (by rw [hx]; rfl))
    (hleast' i a hi (by rw [ha]; rfl))
  rw [compare_pair, Ordering.then_eq_eq, Nat.compare_eq_eq] at heq
  have hplace : i = j := heq.2
  rw [← hplace, hi] at hj
  rw [hb', ← hx, ← Option.some.inj hj, ha]

theorem ascending_sortOn [LawfulEqOrd κ] {key : α → κ} {xs : List α} (h : (xs.map key).Nodup) :
    Ascending key (sortOn key xs) := by
  have hnodup : ((sortOn key xs).map key).Nodup := ((sortOn_perm key xs).map key).nodup_iff.2 h
  refine (List.pairwise_map.1 hnodup).imp₂ ?_ (pairwise_sortOn key xs)
  intro a b hne hle
  have hneq : compare (key a) (key b) ≠ .eq := fun heq => hne (LawfulEqOrd.eq_of_compare heq)
  cases hcmp : compare (key a) (key b) <;> simp_all

variable [DecidableEq κ]

/-- Sorting is stable: the elements of one key keep their order. -/
theorem filter_sortOn (key : α → κ) (xs : List α) (k : κ) :
    (sortOn key xs).filter (fun a => key a = k) = xs.filter fun a => key a = k := by
  have hclass : (xs.filter fun a => key a = k).Pairwise
      fun a b => (compare (key a) (key b)).isLE := by
    refine List.pairwise_of_forall_mem_list fun a ha b hb => ?_
    have hka := of_decide_eq_true (List.mem_filter.1 ha).2
    have hkb := of_decide_eq_true (List.mem_filter.1 hb).2
    rw [hka, hkb]
    exact ReflOrd.isLE_rfl
  -- a merge sort keeps every sorted sublist, and the elements of one key are one
  have hsub : (xs.filter fun a => key a = k).Sublist (sortOn key xs) := by
    refine List.sublist_mergeSort (fun a b c hab hbc => ?_) (fun a b => ?_) hclass
      List.filter_sublist
    · exact TransCmp.isLE_trans hab hbc
    · rw [OrientedOrd.eq_swap (a := key b)]
      cases compare (key a) (key b) <;> rfl
  have hfilter := hsub.filter fun a => key a = k
  rw [List.filter_filter] at hfilter
  simp only [Bool.and_self] at hfilter
  refine (hfilter.eq_of_length ?_).symm
  exact ((sortOn_perm key xs).filter _).length_eq.symm

end Sorting

/-! ## Groups -/

section Grouping

theorem exists_runs_cons [LawfulEqOrd κ] (key : α → κ) (x : α) (xs : List α) :
    ∃ group rest, runs key (x :: xs) = (key x, group) :: rest := by
  cases h : runs key xs with
  | nil => exact ⟨[x], [], by simp [runs, h]⟩
  | cons run rest =>
    obtain ⟨k, group⟩ := run
    by_cases heq : compare (key x) k = .eq
    · exact ⟨x :: group, rest, by simp [runs, h, LawfulEqOrd.eq_of_compare heq]⟩
    · exact ⟨[x], (k, group) :: rest, by simp [runs, h, heq]⟩

theorem map_fst_runs_of_nodup [LawfulEqOrd κ] {xs : List κ} (h : xs.Nodup) :
    (runs id xs).map Prod.fst = xs := by
  induction xs with
  | nil => rfl
  | cons x xs ih =>
    obtain ⟨hx, hxs⟩ := List.nodup_cons.1 h
    cases xs with
    | nil => rfl
    | cons y ys =>
      obtain ⟨group, rest, hruns⟩ := exists_runs_cons id y ys
      have hne : compare x y ≠ .eq := fun heq =>
        hx (LawfulEqOrd.eq_of_compare heq ▸ List.mem_cons_self ..)
      have hrest := ih hxs
      rw [hruns] at hrest
      rw [runs, hruns]
      simp only [id_eq, hne, if_false, List.map_cons] at hrest ⊢
      rw [hrest]

theorem ne_nil_of_mem_runs {key : α → κ} {xs : List α} {run : κ × List α}
    (h : run ∈ runs key xs) : run.2 ≠ [] := by
  induction xs generalizing run with
  | nil => simp [runs] at h
  | cons x xs ih =>
    unfold runs at h
    split at h
    · obtain rfl := List.mem_singleton.1 h
      exact List.cons_ne_nil _ _
    · rename_i k group rest hruns
      split at h
      · rcases List.mem_cons.1 h with rfl | h
        · exact List.cons_ne_nil _ _
        · exact ih (hruns ▸ List.mem_cons_of_mem _ h)
      · rcases List.mem_cons.1 h with rfl | h
        · exact List.cons_ne_nil _ _
        · exact ih (hruns ▸ h)

theorem key_of_mem_runs [LawfulEqOrd κ] {key : α → κ} {xs : List α} {run : κ × List α}
    (h : run ∈ runs key xs) : ∀ a ∈ run.2, key a = run.1 := by
  induction xs generalizing run with
  | nil => simp [runs] at h
  | cons x xs ih =>
    unfold runs at h
    split at h
    · obtain rfl := List.mem_singleton.1 h
      simp
    · rename_i k group rest hruns
      split at h
      · rename_i heq
        rcases List.mem_cons.1 h with rfl | h
        · intro a ha
          rcases List.mem_cons.1 ha with rfl | ha
          · exact LawfulEqOrd.eq_of_compare heq
          · have hrun : (k, group) ∈ runs key xs := hruns ▸ List.mem_cons_self ..
            exact ih hrun a ha
        · exact ih (hruns ▸ List.mem_cons_of_mem _ h)
      · rcases List.mem_cons.1 h with rfl | h
        · simp
        · exact ih (hruns ▸ h)

theorem mem_of_mem_groupBy {key : α → κ} {xs : List α} {group : κ × List α}
    (h : group ∈ groupBy key xs) {a : α} (ha : a ∈ group.2) : a ∈ xs :=
  (flatMap_groupBy_perm key xs).mem_iff.1 (List.mem_flatMap.2 ⟨group, h, ha⟩)

theorem groupBy_eq_nil_iff {key : α → κ} {xs : List α} : groupBy key xs = [] ↔ xs = [] := by
  constructor
  · intro h
    have hperm := flatMap_groupBy_perm key xs
    rw [h] at hperm
    exact hperm.nil_eq.symm
  · rintro rfl
    simp [groupBy, sortOn, runs]

theorem mem_map_fst_groupBy [LawfulEqOrd κ] {key : α → κ} {xs : List α} {k : κ} :
    k ∈ (groupBy key xs).map Prod.fst ↔ ∃ a ∈ xs, key a = k := by
  have hperm := flatMap_groupBy_perm key xs
  constructor
  · intro hk
    obtain ⟨run, hrun, rfl⟩ := List.mem_map.1 hk
    obtain ⟨a, ha⟩ := List.exists_mem_of_ne_nil _ (ne_nil_of_mem_runs hrun)
    exact ⟨a, hperm.mem_iff.1 (List.mem_flatMap.2 ⟨run, hrun, ha⟩), key_of_mem_runs hrun a ha⟩
  · rintro ⟨a, ha, rfl⟩
    obtain ⟨run, hrun, ha⟩ := List.mem_flatMap.1 (hperm.mem_iff.2 ha)
    exact List.mem_map.2 ⟨run, hrun, (key_of_mem_runs hrun a ha).symm⟩

@[simp]
theorem mem_distinct [LawfulEqOrd κ] {xs : List κ} {k : κ} : k ∈ distinct xs ↔ k ∈ xs := by
  rw [distinct, mem_map_fst_groupBy]
  simp

/-- Lists that meet different keys are told apart by filtering what they make together. -/
theorem filter_flatMap_of_mem [ReflOrd κ] [DecidableEq κ] {key : α → κ} {groups : List (κ × List α)}
    (hasc : Ascending Prod.fst groups) (hkey : ∀ g ∈ groups, ∀ a ∈ g.2, key a = g.1)
    {g : κ × List α} (hg : g ∈ groups) :
    (groups.flatMap Prod.snd).filter (fun a => key a = g.1) = g.2 := by
  induction groups with
  | nil => cases hg
  | cons g' groups ih =>
    obtain ⟨hhead, htail⟩ := List.pairwise_cons.1 hasc
    rw [List.flatMap_cons, List.filter_append]
    -- keys ascend, so none of the other lists has elements of this key
    rcases List.mem_cons.1 hg with rfl | hg
    · have hrest : (groups.flatMap Prod.snd).filter (fun a => key a = g.1) = [] := by
        refine List.filter_eq_nil_iff.2 fun a ha heq => ?_
        obtain ⟨g', hg', ha⟩ := List.mem_flatMap.1 ha
        refine ne_of_compare_lt (hhead g' hg') ?_
        rw [← hkey g' (List.mem_cons_of_mem _ hg') a ha, of_decide_eq_true heq]
      have hself : g.2.filter (fun a => key a = g.1) = g.2 :=
        List.filter_eq_self.2 fun a ha => decide_eq_true (hkey g (List.mem_cons_self ..) a ha)
      rw [hrest, hself, List.append_nil]
    · have hfirst : g'.2.filter (fun a => key a = g.1) = [] := by
        refine List.filter_eq_nil_iff.2 fun a ha heq => ne_of_compare_lt (hhead g hg) ?_
        rw [← hkey g' (List.mem_cons_self ..) a ha, of_decide_eq_true heq]
      rw [hfirst, List.nil_append]
      exact ih htail (fun g hg => hkey g (List.mem_cons_of_mem _ hg)) hg

variable [TransOrd κ] [LawfulEqOrd κ]

theorem ascending_runs {key : α → κ} {xs : List α}
    (h : xs.Pairwise fun a b => (compare (key a) (key b)).isLE) :
    Ascending Prod.fst (runs key xs) := by
  induction xs with
  | nil => exact .nil
  | cons x xs ih =>
    obtain ⟨hx, hxs⟩ := List.pairwise_cons.1 h
    cases xs with
    | nil => simp [runs, Ascending]
    | cons y ys =>
      obtain ⟨group, rest, hruns⟩ := exists_runs_cons key y ys
      have hrest := ih hxs
      rw [hruns] at hrest
      obtain ⟨hy, hrest⟩ := List.pairwise_cons.1 hrest
      rw [runs, hruns]
      -- an element of the key of the next run joins it, and any other starts a run below it
      by_cases heq : compare (key x) (key y) = .eq
      · simp only [heq, if_true]
        exact List.pairwise_cons.2 ⟨hy, hrest⟩
      · simp only [heq, if_false]
        have hlt : compare (key x) (key y) = .lt := by
          have hle := hx y (List.mem_cons_self ..)
          cases hcmp : compare (key x) (key y) <;> simp_all
        refine List.pairwise_cons.2 ⟨fun run hrun => ?_, List.pairwise_cons.2 ⟨hy, hrest⟩⟩
        rcases List.mem_cons.1 hrun with rfl | hrun
        · exact hlt
        · exact TransCmp.lt_trans hlt (hy run hrun)

theorem ascending_groupBy (key : α → κ) (xs : List α) : Ascending Prod.fst (groupBy key xs) :=
  ascending_runs (pairwise_sortOn key xs)

theorem ascending_distinct (xs : List κ) : Ascending id (distinct xs) :=
  Ascending.map.2 (ascending_groupBy id xs)

theorem nodup_distinct (xs : List κ) : (distinct xs).Nodup :=
  (ascending_distinct xs).nodup

/-- The different elements of a list are determined by its members. -/
theorem distinct_congr {xs ys : List κ} (h : ∀ k, k ∈ xs ↔ k ∈ ys) : distinct xs = distinct ys := by
  refine (ascending_distinct xs).eq_of_mem_iff (ascending_distinct ys) fun k => ?_
  rw [mem_distinct, mem_distinct, h]

theorem distinct_filter (p : κ → Bool) (xs : List κ) :
    distinct (xs.filter p) = (distinct xs).filter p := by
  refine (ascending_distinct _).eq_of_mem_iff ((ascending_distinct xs).filter p) fun k => ?_
  simp only [mem_distinct, List.mem_filter]

/-- Where a function keeps the order of the elements of a list, the images of the different elements
are the different images. -/
theorem map_distinct {ι : Type} [Ord ι] [TransOrd ι] [LawfulEqOrd ι] {f : κ → ι} {xs : List κ}
    (hf : ∀ a ∈ xs, ∀ b ∈ xs, compare a b = .lt → compare (f a) (f b) = .lt) :
    (distinct xs).map f = distinct (xs.map f) := by
  have hasc : Ascending id ((distinct xs).map f) := by
    refine Ascending.map.2 ((ascending_distinct xs).imp_of_mem ?_)
    intro a b ha hb hlt
    exact hf a (mem_distinct.1 ha) b (mem_distinct.1 hb) hlt
  refine hasc.eq_of_mem_iff (ascending_distinct _) fun image => ?_
  simp only [mem_distinct, List.mem_map]

theorem map_fst_groupBy (key : α → κ) (xs : List α) :
    (groupBy key xs).map Prod.fst = distinct (xs.map key) := by
  have hkeys : Ascending id ((groupBy key xs).map Prod.fst) :=
    Ascending.map.2 (ascending_groupBy key xs)
  refine hkeys.eq_of_mem_iff (ascending_distinct _) fun k => ?_
  rw [mem_map_fst_groupBy, mem_distinct, List.mem_map]

/-- The groups of a list are its filters by the keys that occur. -/
theorem groupBy_eq [DecidableEq κ] (key : α → κ) (xs : List α) :
    groupBy key xs =
      (distinct (xs.map key)).map fun k => (k, xs.filter fun a => key a = k) := by
  rw [← map_fst_groupBy, List.map_map]
  refine (List.map_id _).symm.trans (List.map_congr_left fun g hg => ?_)
  -- the groups make up the sorted list, and sorting is stable
  have hfilter := filter_flatMap_of_mem (ascending_groupBy key xs)
    (fun g hg => key_of_mem_runs hg) hg
  rw [groupBy, flatMap_runs, filter_sortOn] at hfilter
  exact Prod.ext rfl hfilter.symm

/-- What is made of groups is made, for each key that occurs, of the elements of that key. -/
theorem mem_filterMap_groupBy [DecidableEq κ] {key : α → κ} {xs : List α}
    {f : κ × List α → Option β} {b : β} :
    b ∈ (groupBy key xs).filterMap f ↔
      ∃ a ∈ xs, f (key a, xs.filter fun a' => key a' = key a) = some b := by
  rw [groupBy_eq, List.filterMap_map, List.mem_filterMap]
  constructor
  · rintro ⟨k, hk, hf⟩
    obtain ⟨a, ha, rfl⟩ := List.mem_map.1 (mem_distinct.1 hk)
    exact ⟨a, ha, hf⟩
  · rintro ⟨a, ha, hf⟩
    exact ⟨key a, mem_distinct.2 (List.mem_map_of_mem ha), hf⟩

/-- What is made of groups ascends if every part of it has the key of its group. -/
theorem ascending_filterMap_groupBy {key : α → κ} {key' : β → κ} {xs : List α}
    {f : κ × List α → Option β}
    (hf : ∀ group ∈ groupBy key xs, ∀ b, f group = some b → key' b = group.1) :
    Ascending key' ((groupBy key xs).filterMap f) := by
  refine List.pairwise_filterMap.2 ((ascending_groupBy key xs).imp_of_mem ?_)
  intro group group' hgroup hgroup' hlt b hb b' hb'
  rw [hf group hgroup b hb, hf group' hgroup' b' hb']
  exact hlt

/-- The groups of a mapped list are the groups of the list by the keys of the images, mapped. -/
theorem groupBy_map (key : α → κ) (f : β → α) (xs : List β) :
    groupBy key (xs.map f) =
      (groupBy (fun x => key (f x)) xs).map fun group => (group.1, group.2.map f) := by
  classical
  rw [groupBy_eq, groupBy_eq, List.map_map, List.map_map]
  refine List.map_congr_left fun k _ => Prod.ext rfl ?_
  exact List.filter_map ..

/-- The groups of the elements of some keys are the groups of these keys. -/
theorem groupBy_filter (key : α → κ) (p : κ → Bool) (xs : List α) :
    groupBy key (xs.filter fun a => p (key a)) =
      (groupBy key xs).filter fun group => p group.1 := by
  classical
  have hkeys : (xs.filter fun a => p (key a)).map key = (xs.map key).filter p :=
    List.filter_map.symm
  rw [groupBy_eq, groupBy_eq, hkeys, distinct_filter, List.filter_map]
  refine List.map_congr_left fun k hk => ?_
  have hp : p k = true := (List.mem_filter.1 hk).2
  rw [List.filter_filter]
  refine Prod.ext rfl (List.filter_congr fun a _ => ?_)
  by_cases hkey : key a = k
  · simp [hkey, hp]
  · simp [hkey]

/-- What is made of the groups of some keys is what is made of all groups and belongs to these
keys. -/
theorem flatMap_groupBy_filter (key : α → κ) {p : κ → Bool} {f : κ × List α → List β}
    {q : β → Bool} {xs : List α}
    (hf : ∀ group ∈ groupBy key xs, ∀ b ∈ f group, q b = p group.1) :
    (groupBy key (xs.filter fun a => p (key a))).flatMap f =
      ((groupBy key xs).flatMap f).filter q := by
  rw [groupBy_filter]
  generalize groupBy key xs = groups at hf
  induction groups with
  | nil => rfl
  | cons group groups ih =>
    have hrest := ih fun group hgroup => hf group (List.mem_cons_of_mem _ hgroup)
    have hhead := hf group (List.mem_cons_self ..)
    rw [List.flatMap_cons, List.filter_append, ← hrest]
    by_cases hp : p group.1 = true
    · have hall : (f group).filter q = f group :=
        List.filter_eq_self.2 fun b hb => (hhead b hb).trans hp
      simp [hp, hall]
    · have hnone : (f group).filter q = [] :=
        List.filter_eq_nil_iff.2 fun b hb => by rwa [hhead b hb]
      simp [hp, hnone]

theorem filterMap_groupBy_filter (key : α → κ) {p : κ → Bool} {f : κ × List α → Option β}
    {q : β → Bool} {xs : List α}
    (hf : ∀ group ∈ groupBy key xs, ∀ b, f group = some b → q b = p group.1) :
    (groupBy key (xs.filter fun a => p (key a))).filterMap f =
      ((groupBy key xs).filterMap f).filter q := by
  rw [List.filterMap_eq_flatMap_toList, List.filterMap_eq_flatMap_toList]
  refine flatMap_groupBy_filter key fun group hgroup b hb => hf group hgroup b ?_
  simpa using hb

theorem head?_distinct {xs : List κ} {k : κ} (h : (distinct xs).head? = some k) :
    k ∈ xs ∧ ∀ a ∈ xs, (compare k a).isLE := by
  obtain ⟨rest, hrest⟩ := List.head?_eq_some_iff.1 h
  have hasc := ascending_distinct xs
  rw [hrest] at hasc
  refine ⟨mem_distinct.1 (by rw [hrest]; exact List.mem_cons_self ..), fun a ha => ?_⟩
  have hmem : a ∈ k :: rest := hrest ▸ mem_distinct.2 ha
  rcases List.mem_cons.1 hmem with rfl | hmem
  · exact ReflOrd.isLE_rfl
  · have hlt := (List.pairwise_cons.1 hasc).1 a hmem
    rw [show compare k a = .lt from hlt]
    rfl

theorem getLast?_distinct {xs : List κ} {k : κ} (h : (distinct xs).getLast? = some k) :
    k ∈ xs ∧ ∀ a ∈ xs, (compare a k).isLE := by
  obtain ⟨init, hinit⟩ := List.getLast?_eq_some_iff.1 h
  have hasc := ascending_distinct xs
  rw [hinit] at hasc
  refine ⟨mem_distinct.1 (by rw [hinit]; simp), fun a ha => ?_⟩
  have hmem : a ∈ init ++ [k] := hinit ▸ mem_distinct.2 ha
  rcases List.mem_append.1 hmem with hmem | hmem
  · have hlt := hasc.lt_of_mem_init hmem
    rw [show compare a k = .lt from hlt]
    rfl
  · obtain rfl := List.mem_singleton.1 hmem
    exact ReflOrd.isLE_rfl

end Grouping

/-! ## Parts of a size -/

theorem lookup_eq_some_of_mem {κ β : Type} [BEq κ] [LawfulBEq κ] {table : List (κ × β)} {k : κ}
    {b : β} (hmem : (k, b) ∈ table) (hunique : ∀ b', (k, b') ∈ table → b' = b) :
    table.lookup k = some b := by
  have hsome : (table.lookup k).isSome :=
    List.lookup_isSome_iff.2 ⟨(k, b), hmem, beq_self_eq_true k⟩
  obtain ⟨b', hb'⟩ := Option.isSome_iff_exists.1 hsome
  obtain ⟨before, after, hsplit, -⟩ := List.lookup_eq_some_iff.1 hb'
  rw [hb', hunique b' (hsplit ▸ by simp)]
theorem lookup_map_of_mem {κ β : Type} [BEq κ] [LawfulBEq κ] {keys : List κ} {f : κ → β} {k : κ}
    (h : k ∈ keys) : (keys.map fun k => (k, f k)).lookup k = some (f k) := by
  induction keys with
  | nil => cases h
  | cons k' keys ih =>
    rw [List.map_cons, List.lookup_cons]
    by_cases heq : k = k'
    · rw [heq, beq_self_eq_true]
    · rw [beq_eq_false_iff_ne.2 heq]
      exact ih ((List.mem_cons.1 h).resolve_left heq)

theorem findRev?_append {β : Type} {p : β → Bool} {xs ys : List β} :
    (xs ++ ys).findRev? p = (ys.findRev? p).or (xs.findRev? p) := by
  simp only [List.findRev?_eq_find?_reverse, List.reverse_append, List.find?_append]

theorem findRev?_eq_some_of_unique {β : Type} {p : β → Bool} {xs : List β} {x : β} (hx : x ∈ xs)
    (hp : p x = true) (hunique : ∀ y ∈ xs, p y = true → y = x) : xs.findRev? p = some x := by
  rw [List.findRev?_eq_find?_reverse]
  have hsome : (xs.reverse.find? p).isSome :=
    List.find?_isSome.2 ⟨x, List.mem_reverse.2 hx, hp⟩
  obtain ⟨y, hy⟩ := Option.isSome_iff_exists.1 hsome
  rw [hy, hunique y (List.mem_reverse.1 (List.mem_of_find?_eq_some hy)) (List.find?_some hy)]

/-- A table that leaves out keys of a default value only tells the value of every key. -/
theorem getD_lookup_map {κ β : Type} [BEq κ] [LawfulBEq κ] {keys : List κ} {f : κ → β} {k : κ}
    {default : β} (h : k ∉ keys → f k = default) :
    ((keys.map fun k => (k, f k)).lookup k).getD default = f k := by
  by_cases hmem : k ∈ keys
  · rw [lookup_map_of_mem hmem, Option.getD_some]
  · have hnone : (keys.map fun k => (k, f k)).lookup k = none := by
      refine List.lookup_eq_none_iff.2 fun item hitem => ?_
      obtain ⟨k', hk', rfl⟩ := List.mem_map.1 hitem
      simpa using fun heq : k = k' => hmem (heq ▸ hk')
    rw [hnone, Option.getD_none, h hmem]

/-! ## Counting -/

section Counting

variable [TransOrd κ] [LawfulEqOrd κ]

theorem ncard_mem [DecidableEq β] (xs : List β) : {x | x ∈ xs}.ncard = xs.toFinset.card := by
  have hset : {x | x ∈ xs} = (xs.toFinset : Set β) := by
    ext x
    simp
  rw [hset, Set.ncard_coe_finset]

theorem ncard_of_nodup {xs : List β} (h : xs.Nodup) : {x | x ∈ xs}.ncard = xs.length := by
  classical
  rw [ncard_mem, List.toFinset_card_of_nodup h]

theorem ncard_le_length (xs : List β) : {x | x ∈ xs}.ncard ≤ xs.length := by
  classical
  rw [ncard_mem]
  exact List.toFinset_card_le xs

/-- Elements of different keys are as many as the keys. -/
theorem length_eq_ncard {ι : Type} {key : β → ι} {xs : List β} (h : (xs.map key).Nodup) :
    xs.length = {k | ∃ x ∈ xs, key x = k}.ncard := by
  have hlength : (xs.map key).length = xs.length := List.length_map key
  rw [← hlength, ← ncard_of_nodup h]
  simp only [List.mem_map]

theorem length_distinct (xs : List κ) : (distinct xs).length = {k | k ∈ xs}.ncard := by
  rw [← ncard_of_nodup (nodup_distinct xs)]
  simp only [mem_distinct]

theorem length_groupBy (key : α → κ) (xs : List α) :
    (groupBy key xs).length = {k | ∃ a ∈ xs, key a = k}.ncard := by
  rw [← List.length_map (f := Prod.fst), map_fst_groupBy, length_distinct]
  simp only [List.mem_map]

end Counting

/-! ## First extreme elements -/

section Extremes

theorem firstMaxOn?_isSome {key : α → κ} {xs : List α} :
    (firstMaxOn? key xs).isSome ↔ xs ≠ [] := by
  cases xs <;> simp [firstMaxOn?]

theorem firstMinOn?_isSome {key : α → κ} {xs : List α} :
    (firstMinOn? key xs).isSome ↔ xs ≠ [] := by
  cases xs <;> simp [firstMinOn?]

theorem exists_firstMaxOn? (key : α → κ) {xs : List α} (h : xs ≠ []) :
    ∃ m, firstMaxOn? key xs = some m :=
  Option.isSome_iff_exists.1 (firstMaxOn?_isSome.2 h)

theorem exists_firstMinOn? (key : α → κ) {xs : List α} (h : xs ≠ []) :
    ∃ m, firstMinOn? key xs = some m :=
  Option.isSome_iff_exists.1 (firstMinOn?_isSome.2 h)

/-- The element of greatest key, of several the first: those in front of it are smaller, those
behind it are not greater. -/
theorem firstMaxOn?_eq_some [TransOrd κ] {key : α → κ} {xs : List α} {m : α}
    (h : firstMaxOn? key xs = some m) :
    ∃ before after, xs = before ++ m :: after ∧
      (∀ a ∈ before, compare (key a) (key m) = .lt) ∧
      ∀ a ∈ after, (compare (key a) (key m)).isLE := by
  cases xs with
  | nil => cases h
  | cons x xs =>
    obtain rfl := Option.some.inj h
    clear h
    induction xs generalizing x with
    | nil => exact ⟨[], [], rfl, by simp, by simp⟩
    | cons y xs ih =>
      rw [List.foldl_cons]
      by_cases hxy : (compare (key x) (key y)).isLT
      · rw [if_pos hxy]
        obtain ⟨before, after, heq, hbefore, hafter⟩ := ih y
        refine ⟨x :: before, after, by rw [heq]; rfl, fun a ha => ?_, hafter⟩
        rcases List.mem_cons.1 ha with rfl | ha
        · -- `y` is the chosen element or stands in front of it
          have hlt : compare (key a) (key y) = .lt := Ordering.isLT_iff_eq_lt.1 hxy
          cases before with
          | nil => exact (List.cons.inj heq).1 ▸ hlt
          | cons b before =>
            obtain rfl := (List.cons.inj heq).1
            exact TransCmp.lt_trans hlt (hbefore y (List.mem_cons_self ..))
        · exact hbefore a ha
      · rw [if_neg hxy]
        obtain ⟨before, after, heq, hbefore, hafter⟩ := ih x
        generalize xs.foldl _ x = m at heq hbefore hafter ⊢
        have hyx : (compare (key y) (key x)).isLE := by
          rw [OrientedOrd.eq_swap (a := key y)]
          cases hcmp : compare (key x) (key y) <;> simp_all
        cases before with
        | nil =>
          obtain ⟨hx, hxs⟩ := List.cons.inj heq
          refine ⟨[], y :: xs, by rw [List.nil_append, ← hx], by simp, fun a ha => ?_⟩
          rcases List.mem_cons.1 ha with rfl | ha
          · exact hx ▸ hyx
          · exact hafter a (hxs ▸ ha)
        | cons b before =>
          obtain ⟨rfl, hxs⟩ := List.cons.inj heq
          refine ⟨x :: y :: before, after, by rw [hxs]; rfl, fun a ha => ?_, hafter⟩
          have hx := hbefore x (List.mem_cons_self ..)
          rcases List.mem_cons.1 ha with rfl | ha
          · exact hx
          · rcases List.mem_cons.1 ha with rfl | ha
            · exact TransCmp.lt_of_isLE_of_lt hyx hx
            · exact hbefore a (List.mem_cons_of_mem _ ha)

theorem mem_of_firstMaxOn? [TransOrd κ] {key : α → κ} {xs : List α} {m : α}
    (h : firstMaxOn? key xs = some m) : m ∈ xs := by
  obtain ⟨before, after, rfl, -, -⟩ := firstMaxOn?_eq_some h
  simp

theorem isLE_of_firstMaxOn? [TransOrd κ] {key : α → κ} {xs : List α} {m : α}
    (h : firstMaxOn? key xs = some m) {a : α} (ha : a ∈ xs) :
    (compare (key a) (key m)).isLE := by
  obtain ⟨before, after, rfl, hbefore, hafter⟩ := firstMaxOn?_eq_some h
  rcases List.mem_append.1 ha with ha | ha
  · rw [hbefore a ha]
    rfl
  · rcases List.mem_cons.1 ha with rfl | ha
    · exact ReflOrd.isLE_rfl
    · exact hafter a ha

/-- Where elements of equal keys are equal, the first of greatest key is the greatest. -/
theorem firstMaxOn?_eq_some_iff [TransOrd κ] {key : α → κ} {xs : List α} {m : α}
    (hties : ∀ a ∈ xs, ∀ b ∈ xs, compare (key a) (key b) = .eq → a = b) :
    firstMaxOn? key xs = some m ↔ m ∈ xs ∧ ∀ a ∈ xs, (compare (key a) (key m)).isLE := by
  constructor
  · intro h
    exact ⟨mem_of_firstMaxOn? h, fun a ha => isLE_of_firstMaxOn? h ha⟩
  · rintro ⟨hm, hgreatest⟩
    obtain ⟨other, hother⟩ := exists_firstMaxOn? key (List.ne_nil_of_mem hm)
    have hmem := mem_of_firstMaxOn? hother
    have hsame : m = other := hties m hm other hmem
      (OrientedCmp.isLE_antisymm (isLE_of_firstMaxOn? hother hm) (hgreatest other hmem))
    rw [hother, hsame]

/-- Where only one element has the greatest key, the first of greatest key does not depend on the
order of the list. -/
theorem firstMaxOn?_eq_of_perm [TransOrd κ] {key : α → κ} {xs ys : List α} (hperm : xs.Perm ys)
    (hties : ∀ a ∈ xs, ∀ b ∈ xs, (∀ c ∈ xs, (compare (key c) (key a)).isLE) →
      (∀ c ∈ xs, (compare (key c) (key b)).isLE) → a = b) :
    firstMaxOn? key xs = firstMaxOn? key ys := by
  by_cases hnil : xs = []
  · subst hnil
    rw [hperm.nil_eq]
  · have hne : ys ≠ [] := fun h => hnil (h ▸ hperm).eq_nil
    obtain ⟨a, ha⟩ := exists_firstMaxOn? key hnil
    obtain ⟨b, hb⟩ := exists_firstMaxOn? key hne
    have heq : a = b := hties a (mem_of_firstMaxOn? ha) b (hperm.mem_iff.2 (mem_of_firstMaxOn? hb))
      (fun c hc => isLE_of_firstMaxOn? ha hc)
      fun c hc => isLE_of_firstMaxOn? hb (hperm.mem_iff.1 hc)
    rw [ha, hb, heq]

/-- An element that stands in front already cannot take the place of the first element of greatest
key. -/
theorem firstMaxOn?_append_cons [TransOrd κ] {key : α → κ} {before after : List α} {x : α}
    (h : x ∈ before) :
    firstMaxOn? key (before ++ x :: after) = firstMaxOn? key (before ++ after) := by
  cases before with
  | nil => cases h
  | cons first before =>
    let best := before.foldl (fun best y =>
      if (compare (key best) (key y)).isLT then y else best) first
    have hbest : firstMaxOn? key (first :: before) = some best := rfl
    -- the best of the elements in front is not below the one that comes again
    have hnot : ¬ (compare (key best) (key x)).isLT := by
      have hle := isLE_of_firstMaxOn? hbest h
      rw [OrientedOrd.eq_swap (a := key best)]
      cases hcmp : compare (key x) (key best) <;> simp_all
    show some ((before ++ x :: after).foldl _ first) = some ((before ++ after).foldl _ first)
    rw [List.foldl_append, List.foldl_cons, List.foldl_append, if_neg hnot]

/-- The first image of greatest key is the image of the first element whose image has that key. -/
theorem firstMaxOn?_map (key : α → κ) (f : β → α) (xs : List β) :
    firstMaxOn? key (xs.map f) = (firstMaxOn? (fun x => key (f x)) xs).map f := by
  cases xs with
  | nil => rfl
  | cons x xs =>
    rw [List.map_cons, firstMaxOn?, firstMaxOn?, Option.map_some, List.foldl_map]
    refine congrArg some (List.foldl_hom f fun best y => ?_)
    exact (apply_ite f _ y best).symm

/-- Keys of the same order choose the same element. -/
theorem firstMaxOn?_congr {ι : Type} [Ord ι] {key : α → κ} {key' : α → ι}
    (h : ∀ a b, compare (key a) (key b) = compare (key' a) (key' b)) (xs : List α) :
    firstMaxOn? key xs = firstMaxOn? key' xs := by
  cases xs with
  | nil => rfl
  | cons x xs => simp only [firstMaxOn?, h]

theorem firstMinOn?_congr {ι : Type} [Ord ι] {key : α → κ} {key' : α → ι}
    (h : ∀ a b, compare (key a) (key b) = compare (key' a) (key' b)) (xs : List α) :
    firstMinOn? key xs = firstMinOn? key' xs := by
  cases xs with
  | nil => rfl
  | cons x xs => simp only [firstMinOn?, h]

/-- The first element of least key is that of greatest key in the opposite order. -/
theorem firstMinOn?_eq_opposite (key : α → κ) (xs : List α) :
    firstMinOn? key xs = letI := Ord.opposite ‹Ord κ›; firstMaxOn? key xs := by
  cases xs <;> rfl

theorem firstMinOn?_map (key : α → κ) (f : β → α) (xs : List β) :
    firstMinOn? key (xs.map f) = (firstMinOn? (fun x => key (f x)) xs).map f := by
  rw [firstMinOn?_eq_opposite, firstMinOn?_eq_opposite]
  let := Ord.opposite ‹Ord κ›
  exact firstMaxOn?_map key f xs

theorem mem_of_firstMinOn? [TransOrd κ] {key : α → κ} {xs : List α} {m : α}
    (h : firstMinOn? key xs = some m) : m ∈ xs := by
  rw [firstMinOn?_eq_opposite] at h
  let := Ord.opposite ‹Ord κ›
  exact mem_of_firstMaxOn? h

theorem isLE_of_firstMinOn? [TransOrd κ] {key : α → κ} {xs : List α} {m : α}
    (h : firstMinOn? key xs = some m) {a : α} (ha : a ∈ xs) :
    (compare (key m) (key a)).isLE := by
  rw [firstMinOn?_eq_opposite] at h
  let := Ord.opposite ‹Ord κ›
  exact isLE_of_firstMaxOn? h ha

theorem firstMinOn?_eq_some_iff [TransOrd κ] {key : α → κ} {xs : List α} {m : α}
    (hties : ∀ a ∈ xs, ∀ b ∈ xs, compare (key a) (key b) = .eq → a = b) :
    firstMinOn? key xs = some m ↔ m ∈ xs ∧ ∀ a ∈ xs, (compare (key m) (key a)).isLE := by
  rw [firstMinOn?_eq_opposite]
  let := Ord.opposite ‹Ord κ›
  exact firstMaxOn?_eq_some_iff fun a ha b hb heq => hties a ha b hb (OrientedCmp.eq_symm heq)

end Extremes

end Funnel
