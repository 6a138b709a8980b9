import Mathlib.Data.List.Sort
import Mathlib.Order.Basic

/-!
# Pages of a list in descending order

A list is cut into pages of one size, `page size k l` being page `k` from 0 on.  Each page may be
taken from another arrangement of the same elements, as long as every arrangement is in descending
order of a key.

The keys that such a walk passes do not depend on the arrangements (`map_key_walk`), so it passes as
many elements as there are, in descending order.  The elements themselves do not depend on them
either if no key stands on both sides of a page boundary (`walk_perm`); and if one does, there are
arrangements by which the walk passes an element twice (`exists_repeated`).

For one element it is its own key that matters: every walk passes the element (`mem_walk`), unless
its key stands on both sides of a boundary, and then some walk does not (`exists_missing`).
-/

namespace Paging

variable {α κ : Type} [LinearOrder κ] {key : α → κ} {l l' M : List α} {size : ℕ}

/-- Page `k` of a list. -/
def page (size k : ℕ) (l : List α) : List α := (l.drop (k * size)).take size

/-- In descending order of the keys. -/
def Descending (key : α → κ) (l : List α) : Prop := l.Pairwise fun a b => key b ≤ key a

/-- At every page boundary some key splits the elements: as many have it or a greater one as stand
before the boundary. -/
def Separated (key : α → κ) (size : ℕ) (M : List α) : Prop :=
  ∀ k, 0 < k → k * size < M.length → ∃ c, M.countP (fun a => decide (c ≤ key a)) = k * size

/-- The first `n` pages, page `k` taken from the arrangement `l k`. -/
def walk (size n : ℕ) (l : ℕ → List α) : List α :=
  (List.range n).flatMap fun k => page size k (l k)

theorem walk_succ (size n : ℕ) (l : ℕ → List α) :
    walk size (n + 1) l = walk size n l ++ page size n (l n) := by
  rw [walk, List.range_succ, List.flatMap_append, List.flatMap_singleton]
  rfl

theorem take_add_page (size k : ℕ) (l : List α) :
    l.take (k * size) ++ page size k l = l.take ((k + 1) * size) := by
  rw [page, Nat.add_mul, Nat.one_mul, List.take_add]

/-- Pages of one arrangement are the arrangement. -/
theorem walk_const (size n : ℕ) (l : List α) : walk size n (fun _ => l) = l.take (n * size) := by
  induction n with
  | zero =>
      rw [Nat.zero_mul, List.take_zero]
      rfl
  | succ n ih => rw [walk_succ, ih, take_add_page]

theorem mem_of_mem_page {k : ℕ} {a : α} (mem : a ∈ page size k l) : a ∈ l :=
  List.mem_of_mem_drop (List.mem_of_mem_take mem)

theorem map_page {β : Type} (f : α → β) (k : ℕ) : (page size k l).map f = page size k (l.map f) := by
  rw [page, page, List.map_take, List.map_drop]

/-! ### The keys -/

/-- The keys of two arrangements are the same. -/
theorem map_key_eq (perm : l.Perm l') (sorted : Descending key l) (sorted' : Descending key l') :
    l.map key = l'.map key := by
  refine @List.Perm.eq_of_pairwise _ (fun a b => b ≤ a) _ _ ?_ ?_ ?_ (perm.map key)
  · exact fun a b _ _ h h' => le_antisymm h' h
  · exact List.pairwise_map.mpr sorted
  · exact List.pairwise_map.mpr sorted'

/-- **The keys of a walk** do not depend on the arrangements. -/
theorem map_key_walk {arrangement : ℕ → List α} (perm : ∀ k, (arrangement k).Perm M)
    (sorted : ∀ k, Descending key (arrangement k)) (n : ℕ) :
    (walk size n arrangement).map key = ((arrangement 0).map key).take (n * size) := by
  induction n with
  | zero =>
      rw [Nat.zero_mul, List.take_zero]
      rfl
  | succ n ih =>
      have same : (arrangement n).map key = (arrangement 0).map key :=
        map_key_eq ((perm n).trans (perm 0).symm) (sorted n) (sorted 0)
      rw [walk_succ, List.map_append, ih, map_page, same, take_add_page]

/-- A walk is in descending order. -/
theorem descending_walk {arrangement : ℕ → List α} (perm : ∀ k, (arrangement k).Perm M)
    (sorted : ∀ k, Descending key (arrangement k)) (n : ℕ) :
    Descending key (walk size n arrangement) := by
  have first : ((arrangement 0).map key).Pairwise fun a b => b ≤ a :=
    List.pairwise_map.mpr (sorted 0)
  have keys : ((walk size n arrangement).map key).Pairwise fun a b => b ≤ a := by
    rw [map_key_walk perm sorted]
    exact first.sublist (List.take_sublist _ _)
  exact List.pairwise_map.mp keys

/-- A walk to the end passes as many elements as there are. -/
theorem length_walk {arrangement : ℕ → List α} (perm : ∀ k, (arrangement k).Perm M)
    (sorted : ∀ k, Descending key (arrangement k)) {n : ℕ} (reaches : M.length ≤ n * size) :
    (walk size n arrangement).length = M.length := by
  have keys := congrArg List.length ((@map_key_walk _ _ _ _ _ size) perm sorted n)
  rw [List.length_map, List.length_take, List.length_map, (perm 0).length_eq] at keys
  rw [keys, Nat.min_eq_right reaches]

/-! ### Separated pages -/

/-- The elements with a key from `c` on stand at the front. -/
theorem takeWhile_of_descending (sorted : Descending key l) (c : κ) :
    l.takeWhile (fun a => decide (c ≤ key a)) = l.filter fun a => decide (c ≤ key a) := by
  induction l with
  | nil => rfl
  | cons a l ih =>
      obtain ⟨below, rest⟩ := List.pairwise_cons.mp sorted
      by_cases reaches : c ≤ key a
      · rw [List.takeWhile_cons_of_pos (by simpa using reaches),
          List.filter_cons_of_pos (by simpa using reaches), ih rest]
      · rw [List.takeWhile_cons_of_neg (by simpa using reaches),
          List.filter_cons_of_neg (by simpa using reaches)]
        refine (List.filter_eq_nil_iff.mpr fun b mem => ?_).symm
        simpa using lt_of_le_of_lt (below b mem) (not_le.mp reaches)

/-- Where a key splits the elements, it splits every arrangement. -/
theorem take_of_split (sorted : Descending key l) {c : κ} {j : ℕ}
    (split : l.countP (fun a => decide (c ≤ key a)) = j) :
    l.take j = l.filter fun a => decide (c ≤ key a) := by
  rw [List.countP_eq_length_filter, ← takeWhile_of_descending sorted] at split
  rw [← takeWhile_of_descending sorted, ← split]
  exact (List.prefix_iff_eq_take.mp (List.takeWhile_prefix _)).symm

/-- What stands before a page does not depend on the arrangement. -/
theorem take_perm (separated : Separated key size M) (perm : l.Perm M) (perm' : l'.Perm M)
    (sorted : Descending key l) (sorted' : Descending key l') (k : ℕ) :
    (l.take (k * size)).Perm (l'.take (k * size)) := by
  have both : l.Perm l' := perm.trans perm'.symm
  rcases Nat.eq_zero_or_pos k with rfl | pos
  · rw [Nat.zero_mul, List.take_zero, List.take_zero]
  · by_cases inside : k * size < M.length
    · obtain ⟨c, split⟩ := separated k pos inside
      rw [take_of_split sorted ((perm.countP_eq _).trans split),
        take_of_split sorted' ((perm'.countP_eq _).trans split)]
      exact both.filter _
    · rw [List.take_of_length_le (perm.length_eq ▸ Nat.le_of_not_lt inside),
        List.take_of_length_le (perm'.length_eq ▸ Nat.le_of_not_lt inside)]
      exact both

/-- What stands on a page does not depend on the arrangement. -/
theorem page_perm (separated : Separated key size M) (perm : l.Perm M) (perm' : l'.Perm M)
    (sorted : Descending key l) (sorted' : Descending key l') (k : ℕ) :
    (page size k l).Perm (page size k l') := by
  have upTo := take_perm separated perm perm' sorted sorted' (k + 1)
  rw [← take_add_page, ← take_add_page] at upTo
  have before := take_perm separated perm perm' sorted sorted' k
  exact (List.perm_append_left_iff _).mp ((before.symm.append_right _).trans upTo)

/-- **A walk over separated pages** passes every element once. -/
theorem walk_perm (separated : Separated key size M) {arrangement : ℕ → List α}
    (perm : ∀ k, (arrangement k).Perm M) (sorted : ∀ k, Descending key (arrangement k)) {n : ℕ}
    (reaches : M.length ≤ n * size) : (walk size n arrangement).Perm M := by
  have pages : ∀ n, (walk size n arrangement).Perm (walk size n fun _ => arrangement 0) := by
    intro n
    induction n with
    | zero => exact .refl _
    | succ n ih =>
        rw [walk_succ, walk_succ]
        exact ih.append (page_perm separated (perm n) (perm 0) (sorted n) (sorted 0) n)
  have whole := pages n
  rw [walk_const, List.take_of_length_le ((perm 0).length_eq ▸ reaches)] at whole
  exact whole.trans (perm 0)

/-! ### Pages that are not separated -/

/-- Some arrangement is in descending order. -/
theorem exists_descending (key : α → κ) (M : List α) :
    ∃ l : List α, l.Perm M ∧ Descending key l := by
  refine ⟨M.mergeSort fun a b => decide (key b ≤ key a), List.mergeSort_perm _ _, ?_⟩
  have sorted := @List.pairwise_mergeSort _ (fun a b => decide (key b ≤ key a)) ?_ ?_ M
  · exact sorted.imp fun h => by simpa using h
  · intro a b c ab bc
    rw [decide_eq_true_eq] at *
    exact le_trans bc ab
  · intro a b
    rw [Bool.or_eq_true, decide_eq_true_eq, decide_eq_true_eq]
    exact le_total _ _

/-- Two neighbours between which no key splits the elements have the same key. -/
theorem key_eq_of_unsplit {u v : List α} {a b : α} (sorted : Descending key (u ++ a :: b :: v))
    (unsplit : ∀ c, (u ++ a :: b :: v).countP (fun x => decide (c ≤ key x)) ≠ u.length + 1) :
    key a = key b := by
  obtain ⟨_, rest, front⟩ := List.pairwise_append.mp sorted
  obtain ⟨below, rest⟩ := List.pairwise_cons.mp rest
  have after := (List.pairwise_cons.mp rest).1
  refine le_antisymm ?_ (below b List.mem_cons_self)
  by_contra less
  refine unsplit (key a) ?_
  have before : u.countP (fun x => decide (key a ≤ key x)) = u.length :=
    List.countP_eq_length.mpr fun x mem => decide_eq_true (front x mem a List.mem_cons_self)
  have behind : (b :: v).countP (fun x => decide (key a ≤ key x)) = 0 := by
    refine List.countP_eq_zero.mpr fun x mem reaches => less ?_
    rcases List.mem_cons.mp mem with rfl | later
    · exact of_decide_eq_true reaches
    · exact le_trans (of_decide_eq_true reaches) (after x later)
  rw [List.countP_append, List.countP_cons_of_pos (by simp), before, behind]

/-- An element that stands before a boundary in one arrangement and behind it in another one. -/
theorem exists_crossing (positive : 0 < size) (notSeparated : ¬ Separated key size M) :
    ∃ (k : ℕ) (l l' : List α) (a : α), (k + 1) * size < M.length ∧ l.Perm M ∧ l'.Perm M ∧
      Descending key l ∧ Descending key l' ∧ a ∈ page size k l ∧ a ∈ page size (k + 1) l' := by
  obtain ⟨k, pos, inside, unsplit⟩ : ∃ k, 0 < k ∧ k * size < M.length ∧
      ∀ c, M.countP (fun a => decide (c ≤ key a)) ≠ k * size := by
    simpa [Separated] using notSeparated
  obtain ⟨k, rfl⟩ := Nat.exists_eq_succ_of_ne_zero pos.ne'
  obtain ⟨l, perm, sorted⟩ := exists_descending key M
  -- the last element of page `k`, and the first one of the next page
  obtain ⟨j, last⟩ : ∃ j, (k + 1) * size = j + 1 :=
    Nat.exists_eq_succ_of_ne_zero (Nat.mul_pos k.succ_pos positive).ne'
  have long : j + 1 < l.length := by rw [perm.length_eq, ← last]; exact inside
  obtain ⟨u, a, b, v, rfl, before⟩ : ∃ u a b v, l = u ++ a :: b :: v ∧ u.length = j := by
    refine ⟨l.take j, l[j], l[j + 1], l.drop (j + 2), ?_, ?_⟩
    · rw [List.getElem_cons_drop, List.getElem_cons_drop, List.take_append_drop]
    · exact List.length_take_of_le (by omega)
  have same : key a = key b := key_eq_of_unsplit sorted fun c => by
    rw [perm.countP_eq, before, ← last]
    exact unsplit c
  have swapped : (u ++ b :: a :: v).Perm (u ++ a :: b :: v) :=
    (List.Perm.swap a b v).append_left u
  have sorted' : Descending key (u ++ b :: a :: v) := by
    have keys : (u ++ b :: a :: v).map key = (u ++ a :: b :: v).map key := by
      simp only [List.map_append, List.map_cons, same]
    have ordered : ((u ++ a :: b :: v).map key).Pairwise fun x y => y ≤ x :=
      List.pairwise_map.mpr sorted
    rw [← keys] at ordered
    exact List.pairwise_map.mp ordered
  refine ⟨k, u ++ a :: b :: v, u ++ b :: a :: v, a, inside, perm, swapped.trans perm, sorted,
    sorted', ?_, ?_⟩
  · have width : k * size + (size - 1) = u.length := by rw [Nat.succ_mul] at last; omega
    refine List.mem_of_getElem? (i := size - 1) ?_
    rw [page, List.getElem?_take_of_lt (by omega), List.getElem?_drop, width,
      List.getElem?_append_right le_rfl, Nat.sub_self]
    rfl
  · refine List.mem_of_getElem? (i := 0) ?_
    rw [page, List.getElem?_take_of_lt positive, List.getElem?_drop, Nat.add_zero, last, ← before,
      List.getElem?_append_right (Nat.le_succ _), Nat.succ_sub le_rfl, Nat.sub_self]
    rfl

/-- **A walk that passes an element twice**, where the pages are not separated. -/
theorem exists_repeated (positive : 0 < size) (notSeparated : ¬ Separated key size M) {n : ℕ}
    (reaches : M.length ≤ n * size) :
    ∃ arrangement : ℕ → List α, (∀ k, (arrangement k).Perm M) ∧
      (∀ k, Descending key (arrangement k)) ∧ ¬ (walk size n arrangement).Nodup := by
  obtain ⟨k, l, l', a, inside, perm, perm', sorted, sorted', before, behind⟩ :=
    exists_crossing positive notSeparated
  let arrangement : ℕ → List α := fun i => if i ≤ k then l else l'
  refine ⟨arrangement, ?_, ?_, ?_⟩
  · intro i
    simp only [arrangement]
    split
    · exact perm
    · exact perm'
  · intro i
    simp only [arrangement]
    split
    · exact sorted
    · exact sorted'
  · intro nodup
    have reached : k + 1 < n := Nat.lt_of_mul_lt_mul_right (lt_of_lt_of_le inside reaches)
    have apart := List.pairwise_iff_getElem.mp (List.nodup_flatMap.mp nodup).2 k (k + 1)
      (by rw [List.length_range]; omega) (by rw [List.length_range]; omega) (Nat.lt_succ_self k)
    simp only [List.getElem_range] at apart
    refine apart (a := a) ?_ ?_
    · simp only [arrangement, le_refl, if_true]
      exact before
    · simp only [arrangement, Nat.not_succ_le_self, if_false]
      exact behind

/-! ### A key on one page -/

/-- No page boundary runs between two elements with this key. -/
def Together (key : α → κ) (size : ℕ) (M : List α) (c : κ) : Prop :=
  ∀ k, k * size ≤ M.countP (fun a => decide (c < key a)) ∨
    M.countP (fun a => decide (c ≤ key a)) ≤ k * size

/-- Where an element may stand: behind those with a greater key, before those with a smaller one. -/
theorem index_bounds {u v : List α} {a : α} (sorted : Descending key (u ++ a :: v)) :
    (u ++ a :: v).countP (fun x => decide (key a < key x)) ≤ u.length ∧
      u.length < (u ++ a :: v).countP (fun x => decide (key a ≤ key x)) := by
  obtain ⟨-, rest, front⟩ := List.pairwise_append.mp sorted
  have below := (List.pairwise_cons.mp rest).1
  rw [List.countP_append, List.countP_append]
  constructor
  · have behind : (a :: v).countP (fun x => decide (key a < key x)) = 0 := by
      refine List.countP_eq_zero.mpr fun x mem greater => ?_
      rcases List.mem_cons.mp mem with rfl | later
      · exact lt_irrefl _ (of_decide_eq_true greater)
      · exact absurd (of_decide_eq_true greater) (not_lt_of_ge (below x later))
    rw [behind]
    exact List.countP_le_length
  · have before : u.countP (fun x => decide (key a ≤ key x)) = u.length :=
      List.countP_eq_length.mpr fun x mem => decide_eq_true (front x mem a List.mem_cons_self)
    rw [before, List.countP_cons_of_pos (by simp)]
    omega

/-- What stands at these places is on the page. -/
theorem mem_page_of_index {u v : List α} {a : α} {k : ℕ} (low : k * size ≤ u.length)
    (high : u.length < (k + 1) * size) : a ∈ page size k (u ++ a :: v) := by
  rw [Nat.succ_mul] at high
  refine List.mem_of_getElem? (i := u.length - k * size) ?_
  rw [page, List.getElem?_take_of_lt (by omega), List.getElem?_drop, Nat.add_sub_cancel' low,
    List.getElem?_append_right le_rfl, Nat.sub_self]
  rfl

/-- An element that occurs once is on no other page. -/
theorem index_of_mem_page {u v : List α} {a : α} {k : ℕ} (once : (u ++ a :: v).Nodup)
    (mem : a ∈ page size k (u ++ a :: v)) : k * size ≤ u.length ∧ u.length < (k + 1) * size := by
  obtain ⟨i, inside, found⟩ := List.mem_iff_getElem.mp mem
  rw [page, List.length_take, List.length_drop] at inside
  simp only [page, List.getElem_take, List.getElem_drop] at found
  have within : u.length < (u ++ a :: v).length := by simp
  have here : (u ++ a :: v)[u.length] = a := by simp
  have same := (List.Nodup.getElem_inj_iff once).mp (found.trans here.symm)
  rw [Nat.succ_mul]
  omega

/-- **A key on one page**: every walk passes the element. -/
theorem mem_walk {a : α} (mem : a ∈ M) (together : Together key size M (key a))
    {arrangement : ℕ → List α} (perm : ∀ k, (arrangement k).Perm M)
    (sorted : ∀ k, Descending key (arrangement k)) {n : ℕ} (reaches : M.length ≤ n * size) :
    a ∈ walk size n arrangement := by
  have split : ∀ k, ∃ u v, arrangement k = u ++ a :: v := fun k =>
    List.append_of_mem ((perm k).mem_iff.mpr mem)
  have bounds : ∀ {k u v}, arrangement k = u ++ a :: v →
      M.countP (fun x => decide (key a < key x)) ≤ u.length ∧
        u.length < M.countP (fun x => decide (key a ≤ key x)) := by
    intro k u v same
    have within := index_bounds (same ▸ sorted k)
    rwa [← same, (perm k).countP_eq, (perm k).countP_eq] at within
  obtain ⟨u, v, same⟩ := split 0
  have filled : M.countP (fun x => decide (key a < key x)) <
      M.countP (fun x => decide (key a ≤ key x)) := by
    have := bounds same
    omega
  have most : M.countP (fun x => decide (key a ≤ key x)) ≤ M.length := List.countP_le_length
  have positive : 0 < size := by
    refine Nat.pos_of_ne_zero fun zero => ?_
    rw [zero, Nat.mul_zero] at reaches
    omega
  -- the page of the first place
  let k := M.countP (fun x => decide (key a < key x)) / size
  have low : k * size ≤ M.countP (fun x => decide (key a < key x)) := Nat.div_mul_le_self _ _
  have high : M.countP (fun x => decide (key a < key x)) < (k + 1) * size := by
    rw [Nat.succ_mul]
    exact Nat.lt_div_mul_add positive
  have ends := (together (k + 1)).resolve_left (by omega)
  have reached : k < n := Nat.lt_of_mul_lt_mul_right (a := size) (by omega)
  obtain ⟨u, v, same⟩ := split k
  have within := bounds same
  refine List.mem_flatMap.mpr ⟨k, List.mem_range.mpr reached, ?_⟩
  rw [same]
  exact mem_page_of_index (by omega) (by omega)

/-- The elements with a greater key, with this one, and with a smaller one. -/
theorem three_parts (key : α → κ) (c : κ) (l : List α) :
    (l.filter (fun x => decide (c < key x)) ++ (l.filter (fun x => decide (key x = c)) ++
      l.filter fun x => decide (key x < c))).Perm l := by
  induction l with
  | nil => exact .refl _
  | cons x l ih =>
      rcases lt_trichotomy c (key x) with greater | same | smaller
      · rw [List.filter_cons_of_pos (by simpa using greater),
          List.filter_cons_of_neg (by simpa using greater.ne'),
          List.filter_cons_of_neg (by simpa using greater.le)]
        exact ih.cons x
      · rw [List.filter_cons_of_neg (by simpa using same.ge),
          List.filter_cons_of_pos (by simpa using same.symm),
          List.filter_cons_of_neg (by simpa using same.le)]
        exact List.perm_middle.trans (ih.cons x)
      · rw [List.filter_cons_of_neg (by simpa using smaller.le),
          List.filter_cons_of_neg (by simpa using smaller.ne),
          List.filter_cons_of_pos (by simpa using smaller), ← List.append_assoc]
        refine List.perm_middle.trans (List.Perm.cons x ?_)
        rwa [List.append_assoc]

/-- An element stands behind all others of its key in some arrangement, and before them in another
one. -/
theorem exists_extremes {a : α} (mem : a ∈ M) :
    ∃ hi mid lo : List α, (hi ++ mid ++ a :: lo).Perm M ∧ (hi ++ a :: (mid ++ lo)).Perm M ∧
      Descending key (hi ++ mid ++ a :: lo) ∧ Descending key (hi ++ a :: (mid ++ lo)) ∧
      (∀ x ∈ hi, key a < key x) ∧ ∀ x ∈ lo, key x < key a := by
  classical
  obtain ⟨l, perm, sorted⟩ := exists_descending key M
  let hi := l.filter fun x => decide (key a < key x)
  let mid := (l.filter fun x => decide (key x = key a)).erase a
  let lo := l.filter fun x => decide (key x < key a)
  have here : a ∈ l.filter fun x => decide (key x = key a) :=
    List.mem_filter.mpr ⟨perm.mem_iff.mpr mem, decide_eq_true rfl⟩
  have whole : (hi ++ a :: (mid ++ lo)).Perm M :=
    (((List.perm_cons_erase here).append_right lo).symm.append_left hi).trans
      ((three_parts key (key a) l).trans perm)
  have moved : (hi ++ mid ++ a :: lo).Perm (hi ++ a :: (mid ++ lo)) := by
    rw [List.append_assoc]
    exact List.perm_middle.append_left hi
  have greater : ∀ x ∈ hi, key a < key x := fun x h => of_decide_eq_true (List.mem_filter.mp h).2
  have smaller : ∀ x ∈ lo, key x < key a := fun x h => of_decide_eq_true (List.mem_filter.mp h).2
  have same : ∀ x ∈ mid, key x = key a := fun x h =>
    of_decide_eq_true (List.mem_filter.mp (List.mem_of_mem_erase h)).2
  -- whatever stands in the middle, as long as it has this key
  have descends : ∀ ties : List α, (∀ x ∈ ties, key x = key a) →
      Descending key (hi ++ (ties ++ lo)) := by
    intro ties tied
    refine List.pairwise_append.mpr ⟨sorted.filter _, List.pairwise_append.mpr
      ⟨List.pairwise_of_forall_mem_list fun x h y h' => ((tied y h').trans (tied x h).symm).le,
        sorted.filter _, fun x h y h' => ?_⟩, fun x h y h' => ?_⟩
    · rw [tied x h]
      exact (smaller y h').le
    · rcases List.mem_append.mp h' with tie | low
      · rw [tied y tie]
        exact (greater x h).le
      · exact ((smaller y low).trans (greater x h)).le
  have front := descends (a :: mid) (List.forall_mem_cons.mpr ⟨rfl, same⟩)
  have back := descends (mid ++ [a]) (List.forall_mem_append.mpr
    ⟨same, List.forall_mem_singleton.mpr rfl⟩)
  rw [List.append_assoc, ← List.append_assoc, List.singleton_append] at back
  exact ⟨hi, mid, lo, moved.trans whole, whole, back, front, greater, smaller⟩

/-- **A key on two pages**: some walk does not pass the element. -/
theorem exists_missing {a : α} (once : M.Nodup) (mem : a ∈ M)
    (apart : ¬ Together key size M (key a)) (n : ℕ) :
    ∃ arrangement : ℕ → List α, (∀ k, (arrangement k).Perm M) ∧
      (∀ k, Descending key (arrangement k)) ∧ a ∉ walk size n arrangement := by
  obtain ⟨k, before, behind⟩ : ∃ k, M.countP (fun x => decide (key a < key x)) < k * size ∧
      k * size < M.countP (fun x => decide (key a ≤ key x)) := by
    simpa [Together] using apart
  obtain ⟨hi, mid, lo, perm, perm', sorted, sorted', greater, smaller⟩ :=
    (@exists_extremes _ _ _ key) mem
  have first : hi.length ≤ M.countP (fun x => decide (key a < key x)) := by
    have all : hi.countP (fun x => decide (key a < key x)) = hi.length :=
      List.countP_eq_length.mpr fun x h => decide_eq_true (greater x h)
    rw [← perm'.countP_eq, List.countP_append, all]
    exact Nat.le_add_right _ _
  have last : M.countP (fun x => decide (key a ≤ key x)) ≤ (hi ++ mid).length + 1 := by
    have none : lo.countP (fun x => decide (key a ≤ key x)) = 0 := by
      refine List.countP_eq_zero.mpr fun x h reaches => ?_
      exact absurd (of_decide_eq_true reaches) (not_le_of_gt (smaller x h))
    rw [← perm.countP_eq, List.countP_append, List.countP_cons_of_pos (by simp), none]
    exact Nat.succ_le_succ List.countP_le_length
  -- the last one of its key before the boundary, the first one behind it
  let arrangement : ℕ → List α := fun i =>
    if i < k then hi ++ mid ++ a :: lo else hi ++ a :: (mid ++ lo)
  refine ⟨arrangement, fun i => ?_, fun i => ?_, fun passed => ?_⟩
  · simp only [arrangement]
    split
    · exact perm
    · exact perm'
  · simp only [arrangement]
    split
    · exact sorted
    · exact sorted'
  · obtain ⟨i, -, onPage⟩ := List.mem_flatMap.mp passed
    by_cases early : i < k
    · rw [show arrangement i = _ from if_pos early] at onPage
      have within := index_of_mem_page (perm.nodup_iff.mpr once) onPage
      have below : (i + 1) * size ≤ k * size := Nat.mul_le_mul_right size early
      omega
    · rw [show arrangement i = _ from if_neg early] at onPage
      have within := index_of_mem_page (perm'.nodup_iff.mpr once) onPage
      have := Nat.mul_le_mul_right size (Nat.le_of_not_lt early)
      omega

end Paging
