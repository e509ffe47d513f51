import Mathlib.Data.List.TakeWhile
import Mathlib.Tactic

/-!
# Searching for a marker between separators

The search of the regular expression `_key_([^_]+)_` in a string, for a separator and a key without
separators: the leftmost place where the separator, the key, the separator, a group of other
characters and the separator follow each other.  Cut at its separators, the string is a list of
fields, and the group is the first field that follows the key and is neither empty nor the last.

* `matchAt`, `search`: the regular expression at one place, and its first match.
* `fieldMatch`, `searchFields`: the same, field by field; `search_intercalate`.
* `searchFields_span`: where the group is.
* `CompleteIn`, `searchFields_complete`: a match inside a part of the fields.
* `searchFields_append`: a match across the end of a part, or behind it.
-/

namespace LsmFork
namespace Marker

variable {α : Type*} [DecidableEq α] (sep : α) (key : List α)

/-! ## The regular expression -/

/-- The group of a match at the front.  The group is as long as it can be, and no shorter one has a
separator behind it. -/
def matchAt (s : List α) : Option (List α) :=
  if sep :: key ++ [sep] <+: s then
    let group := (s.drop (key.length + 2)).takeWhile (· ≠ sep)
    if group ≠ [] ∧ (s.drop (key.length + 2 + group.length)).head? = some sep then some group
    else none
  else none

/-- The first match from the place `k` on: where its group starts, and the group. -/
def search : List α → ℕ → Option (ℕ × List α)
  | [], _ => none
  | c :: s, k =>
    match matchAt sep key (c :: s) with
    | some group => some (k + key.length + 2, group)
    | none => search s (k + 1)

/-! ## Field by field -/

/-- The fields start with the key, and the group behind it is neither empty nor the last field. -/
def fieldMatch : List (List α) → Option (List α)
  | f :: g :: _ :: _ => if f = key ∧ g ≠ [] then some g else none
  | _ => none

/-- The search over the fields of a string. -/
def searchFields : List (List α) → ℕ → Option (ℕ × List α)
  | [], _ => none
  | f :: fs, k =>
    match fieldMatch key fs with
    | some group => some (k + f.length + key.length + 2, group)
    | none => searchFields fs (k + f.length + 1)

variable {sep key}

theorem matchAt_of_ne {c : α} (h : c ≠ sep) (s : List α) : matchAt sep key (c :: s) = none := by
  unfold matchAt
  rw [if_neg]
  intro hfront
  exact h (List.cons_prefix_cons.mp hfront).1.symm

theorem search_append {f : List α} (hf : sep ∉ f) (s : List α) (k : ℕ) :
    search sep key (f ++ s) k = search sep key s (k + f.length) := by
  induction f generalizing k with
  | nil => rfl
  | cons c f ih =>
    rw [List.mem_cons, not_or] at hf
    rw [List.cons_append, search, matchAt_of_ne (Ne.symm hf.1)]
    show search sep key (f ++ s) (k + 1) = _
    rw [ih hf.2, List.length_cons]
    congr 1
    omega

omit [DecidableEq α] in
/-- What stands before a separator is determined by the string. -/
theorem append_cons_inj {a b u v : List α} (ha : sep ∉ a) (hb : sep ∉ b)
    (h : a ++ sep :: u = b ++ sep :: v) : a = b ∧ u = v := by
  induction a generalizing b with
  | nil =>
    cases b with
    | nil => exact ⟨rfl, (List.cons.inj h).2⟩
    | cons c b => exact absurd (List.mem_cons.mpr (Or.inl (List.cons.inj h).1)) hb
  | cons d a ih =>
    cases b with
    | nil => exact absurd (List.mem_cons.mpr (Or.inl (List.cons.inj h).1.symm)) ha
    | cons c b =>
      obtain ⟨rfl, htail⟩ := List.cons.inj h
      rw [List.mem_cons, not_or] at ha hb
      obtain ⟨rfl, huv⟩ := ih ha.2 hb.2 htail
      exact ⟨rfl, huv⟩

omit [DecidableEq α] in
/-- The key and the separator behind it are at the front exactly when the key is the first field,
and not the last. -/
theorem key_prefix_iff (hkey : sep ∉ key) {f : List α} (hf : sep ∉ f) {t : List α} :
    sep :: key ++ [sep] <+: sep :: (f ++ sep :: t) ↔ f = key := by
  rw [List.cons_append, List.cons_prefix_cons, and_iff_right rfl]
  constructor
  · rintro ⟨u, hu⟩
    rw [List.append_assoc, List.singleton_append] at hu
    exact (append_cons_inj hf hkey hu.symm).1
  · rintro rfl
    exact ⟨t, by rw [List.append_assoc, List.singleton_append]⟩

/-- The group behind the key is the next field, unless that is empty or the last. -/
theorem group_intercalate {g : List α} (hg : sep ∉ g) (fs : List (List α)) :
    ([sep].intercalate (g :: fs)).takeWhile (· ≠ sep) = g ∧
      (([sep].intercalate (g :: fs)).drop g.length).head? = if fs = [] then none else some sep := by
  have hpos : ∀ c ∈ g, (decide (c ≠ sep)) = true := fun c hc => by
    simpa using fun heq : c = sep => hg (heq ▸ hc)
  by_cases hlast : fs = []
  · subst hlast
    rw [List.intercalate_singleton, if_pos rfl, List.drop_length]
    exact ⟨List.takeWhile_eq_self_iff.mpr hpos, rfl⟩
  · rw [List.intercalate_cons_of_ne_nil hlast, if_neg hlast, List.append_assoc, List.drop_left,
      List.takeWhile_append_of_pos hpos, List.singleton_append,
      List.takeWhile_cons_of_neg (by simp), List.append_nil]
    exact ⟨rfl, rfl⟩

/-- **A match at a separator** is one of the fields behind it. -/
theorem matchAt_intercalate (hkey : sep ∉ key) {fs : List (List α)} (hfs : ∀ f ∈ fs, sep ∉ f) :
    matchAt sep key (sep :: [sep].intercalate fs) = fieldMatch key fs := by
  match fs with
  | [] =>
    rw [matchAt, if_neg]
    · rfl
    · intro hfront
      have hlen := hfront.length_le
      simp at hlen
  | [f] =>
    rw [List.forall_mem_singleton] at hfs
    rw [matchAt, if_neg]
    · rfl
    · rw [List.intercalate_singleton, List.cons_append, List.cons_prefix_cons]
      rintro ⟨-, hfront⟩
      exact hfs (hfront.subset (List.mem_append_right _ (List.mem_singleton.mpr rfl)))
  | f :: g :: rest =>
    rw [List.forall_mem_cons, List.forall_mem_cons] at hfs
    have hsplit : [sep].intercalate (f :: g :: rest) =
        f ++ sep :: [sep].intercalate (g :: rest) := by
      rw [List.intercalate_cons_cons, List.append_assoc, List.singleton_append]
    rw [matchAt, hsplit]
    by_cases hf : f = key
    · subst hf
      have hdrop : ∀ n, (sep :: (f ++ sep :: [sep].intercalate (g :: rest))).drop
          (f.length + 2 + n) = ([sep].intercalate (g :: rest)).drop n := by
        intro n
        have happend : sep :: (f ++ sep :: [sep].intercalate (g :: rest)) =
            (sep :: f ++ [sep]) ++ [sep].intercalate (g :: rest) := by
          rw [List.append_assoc, List.singleton_append, List.cons_append]
        have hlen : (sep :: f ++ [sep]).length = f.length + 2 := by
          rw [List.length_append, List.length_cons, List.length_singleton]
        rw [happend, ← hlen, List.drop_length_add_append]
      obtain ⟨hgroup, hnext⟩ := group_intercalate hfs.2.1 rest
      have hdrop0 := hdrop 0
      rw [Nat.add_zero, List.drop_zero] at hdrop0
      rw [if_pos ((key_prefix_iff hkey hfs.1).mpr rfl)]
      simp only [hdrop0, hgroup, hdrop, hnext]
      cases rest with
      | nil => exact if_neg fun h => by cases h.2
      | cons r rest => simp [fieldMatch]
    · rw [if_neg (fun h => hf ((key_prefix_iff hkey hfs.1).mp h))]
      cases rest with
      | nil => rfl
      | cons r rest => exact (if_neg fun h => hf h.1).symm

/-- **The search** over a string is the one over its fields. -/
theorem search_intercalate (hkey : sep ∉ key) {fs : List (List α)} (hfs : ∀ f ∈ fs, sep ∉ f)
    (k : ℕ) : search sep key ([sep].intercalate fs) k = searchFields key fs k := by
  induction fs generalizing k with
  | nil => rfl
  | cons f fs ih =>
    rw [List.forall_mem_cons] at hfs
    by_cases hlast : fs = []
    · subst hlast
      rw [List.intercalate_singleton, ← List.append_nil f, search_append hfs.1]
      rfl
    · rw [List.intercalate_cons_of_ne_nil hlast, List.append_assoc, search_append hfs.1,
        List.singleton_append, search, matchAt_intercalate hkey hfs.2, searchFields, ih hfs.2]

/-! ## Where the group is -/

/-- A part of the fields has the key in it, with a field behind it that is not empty. -/
def CompleteIn (key : List α) : List (List α) → Prop
  | f :: g :: fs => (f = key ∧ g ≠ []) ∨ CompleteIn key (g :: fs)
  | _ => False

omit [DecidableEq α] in
theorem intercalate_length (f : List α) {fs : List (List α)} (h : fs ≠ []) :
    ([sep].intercalate (f :: fs)).length = f.length + 1 + ([sep].intercalate fs).length := by
  rw [List.intercalate_cons_of_ne_nil h, List.length_append, List.length_append,
    List.length_singleton]

omit [DecidableEq α] in
theorem getLast_length_le {fs : List (List α)} (h : fs ≠ []) :
    (fs.getLast h).length ≤ ([sep].intercalate fs).length := by
  induction fs with
  | nil => exact absurd rfl h
  | cons f fs ih =>
    by_cases hlast : fs = []
    · subst hlast
      rw [List.intercalate_singleton]
      exact le_refl _
    · rw [List.getLast_cons hlast, intercalate_length f hlast]
      have := ih hlast
      omega

omit [DecidableEq α] in
theorem intercalate_append {fs gs : List (List α)} (hfs : fs ≠ []) (hgs : gs ≠ []) :
    [sep].intercalate (fs ++ gs) = [sep].intercalate fs ++ sep :: [sep].intercalate gs := by
  induction fs with
  | nil => exact absurd rfl hfs
  | cons f fs ih =>
    by_cases hlast : fs = []
    · subst hlast
      rw [List.singleton_append, List.intercalate_cons_of_ne_nil hgs, List.intercalate_singleton,
        List.append_assoc, List.singleton_append]
    · rw [List.cons_append, List.intercalate_cons_of_ne_nil (by simp [hlast]), ih hlast,
        List.intercalate_cons_of_ne_nil hlast, List.append_assoc _ ([sep].intercalate fs)]

omit [DecidableEq α] in
theorem intercalate_concat (fs : List (List α)) (f t : List α) :
    [sep].intercalate (fs ++ [f ++ t]) = [sep].intercalate (fs ++ [f]) ++ t := by
  by_cases hfs : fs = []
  · subst hfs
    rw [List.nil_append, List.nil_append, List.intercalate_singleton, List.intercalate_singleton]
  · rw [intercalate_append hfs (List.cons_ne_nil _ _),
      intercalate_append hfs (List.cons_ne_nil _ _), List.intercalate_singleton,
      List.intercalate_singleton, List.append_assoc, List.cons_append]

theorem notMem_of_mem_splitOn {s : List α} : ∀ f ∈ s.splitOn sep, sep ∉ f := by
  induction s with
  | nil =>
    rw [List.splitOn_nil, List.forall_mem_singleton]
    exact List.not_mem_nil
  | cons c s ih =>
    rw [List.splitOn_cons_eq_if_modifyHead]
    split
    · rw [List.forall_mem_cons]
      exact ⟨List.not_mem_nil, ih⟩
    · rename_i hc
      obtain ⟨f, fs, hfs⟩ := List.exists_cons_of_ne_nil (List.splitOn_ne_nil sep s)
      rw [hfs, List.forall_mem_cons] at ih
      rw [hfs, List.modifyHead_cons, List.forall_mem_cons, List.mem_cons, not_or]
      exact ⟨⟨fun heq => hc (by simpa using heq.symm), ih.1⟩, ih.2⟩

/-- A match of the fields: the key, the group, and at least one more. -/
theorem fieldMatch_eq_some {fs : List (List α)} {g : List α} (h : fieldMatch key fs = some g) :
    g ≠ [] ∧ ∃ r rs, fs = key :: g :: r :: rs := by
  match fs with
  | [] | [_] | [_, _] => cases h
  | f :: g' :: r :: rs =>
    by_cases hmatch : f = key ∧ g' ≠ []
    · obtain rfl : g' = g := Option.some.inj ((if_pos hmatch).symm.trans h)
      exact ⟨hmatch.2, r, rs, by rw [hmatch.1]⟩
    · cases (if_neg hmatch).symm.trans h

variable (sep) in
/-- **The group** is behind the first field, and in front of the last. -/
theorem searchFields_span {f : List α} {fs : List (List α)} {k k' : ℕ} {g : List α}
    (h : searchFields key (f :: fs) k = some (k', g)) :
    g ≠ [] ∧ k + f.length + 1 ≤ k' ∧
      k' + g.length + 1 + ((f :: fs).getLast (List.cons_ne_nil f fs)).length ≤
        k + ([sep].intercalate (f :: fs)).length := by
  induction fs generalizing f k with
  | nil => cases h
  | cons f' fs ih =>
    rw [searchFields] at h
    rw [List.getLast_cons (List.cons_ne_nil f' fs), intercalate_length f (List.cons_ne_nil f' fs)]
    cases hmatch : fieldMatch key (f' :: fs) with
    | some group =>
      rw [hmatch] at h
      cases h
      obtain ⟨hg, r, rs, heq⟩ := fieldMatch_eq_some hmatch
      obtain ⟨rfl, rfl⟩ := List.cons.inj heq
      have hlast : ((r :: rs).getLast (List.cons_ne_nil r rs)).length ≤
          ([sep].intercalate (r :: rs)).length := getLast_length_le _
      rw [List.getLast_cons (List.cons_ne_nil g (r :: rs)),
        List.getLast_cons (List.cons_ne_nil r rs),
        intercalate_length f' (List.cons_ne_nil g (r :: rs)),
        intercalate_length g (List.cons_ne_nil r rs)]
      exact ⟨hg, by omega, by omega⟩
    | none =>
      rw [hmatch] at h
      obtain ⟨hg, hstart, hend⟩ := ih h
      exact ⟨hg, by omega, by omega⟩

section Part

variable {h p : List α} {rest : List (List α)} {ns : List (List α)}

theorem searchFields_of_none (f : List α) {fs : List (List α)} (hnone : fieldMatch key fs = none)
    (k : ℕ) : searchFields key (f :: fs) k = searchFields key fs (k + f.length + 1) := by
  rw [searchFields, hnone]

/-- The key, before a field that is not empty and not the last. -/
theorem searchFields_key (f : List α) (hh : h ≠ []) (k : ℕ) :
    searchFields key (f :: key :: h :: p :: rest) k =
      some (k + f.length + key.length + 2, h) := by
  have hmatch : fieldMatch key (key :: h :: p :: rest) = some h := if_pos ⟨rfl, hh⟩
  rw [searchFields, hmatch]

variable (sep) in
/-- **A match inside the part**: the group is in it. -/
theorem searchFields_complete (hcomplete : CompleteIn key ns) (f : List α) (k : ℕ) :
    ∃ k' g, searchFields key (f :: (ns ++ h :: p :: rest)) k = some (k', g) ∧ g ≠ [] ∧
      k + f.length + 1 ≤ k' ∧
      k' + g.length ≤ k + f.length + 1 + ([sep].intercalate ns).length := by
  induction ns generalizing f k with
  | nil => cases hcomplete
  | cons n ns ih =>
    match ns with
    | [] => cases hcomplete
    | n' :: ns =>
      rw [intercalate_length n (List.cons_ne_nil n' ns)]
      by_cases hmatch : n = key ∧ n' ≠ []
      · obtain ⟨rfl, hn'⟩ := hmatch
        obtain ⟨r, rs, htail⟩ : ∃ r rs, ns ++ h :: p :: rest = r :: rs := by
          cases ns with
          | nil => exact ⟨h, p :: rest, rfl⟩
          | cons r ns => exact ⟨r, ns ++ h :: p :: rest, rfl⟩
        have hwidth : n'.length ≤ ([sep].intercalate (n' :: ns)).length := by
          by_cases hns : ns = []
          · subst hns
            rw [List.intercalate_singleton]
          · rw [intercalate_length n' hns]
            omega
        refine ⟨k + f.length + n.length + 2, n', ?_, hn', by omega, by omega⟩
        rw [List.cons_append, List.cons_append, htail]
        exact searchFields_key f hn' k
      · obtain ⟨k', g, heq, hg, hstart, hend⟩ :=
          ih (hcomplete.resolve_left hmatch) n (k + f.length + 1)
        refine ⟨k', g, ?_, hg, by omega, by omega⟩
        have hnone : fieldMatch key (n :: n' :: ns ++ h :: p :: rest) = none := by
          cases ns <;> exact if_neg hmatch
        rw [searchFields_of_none f hnone]
        exact heq

variable (sep) in
/-- **No match inside the part.**  When the part ends in the key, the group is the field behind it;
else the search goes on there. -/
theorem searchFields_append (hns : ns ≠ []) (hcomplete : ¬ CompleteIn key ns) (hh : h ≠ [])
    (hhkey : h ≠ key) (hpkey : p ≠ key) (f : List α) (k : ℕ) :
    searchFields key (f :: (ns ++ h :: p :: rest)) k =
      if ns.getLast hns = key then
        some (k + f.length + 1 + ([sep].intercalate ns).length + 1, h)
      else
        searchFields key (p :: rest)
          (k + f.length + 1 + ([sep].intercalate ns).length + 1 + h.length + 1) := by
  induction ns generalizing f k with
  | nil => exact absurd rfl hns
  | cons n ns ih =>
    match ns with
    | [] =>
      rw [List.getLast_singleton, List.intercalate_singleton]
      split
      · rename_i hkey
        subst hkey
        rw [List.cons_append, List.nil_append, searchFields_key f hh]
        congr 2
        omega
      · rename_i hkey
        have hnone : fieldMatch key (n :: h :: p :: rest) = none := if_neg fun hm => hkey hm.1
        have hnone' : fieldMatch key (h :: p :: rest) = none := by
          cases rest with
          | nil => rfl
          | cons r rest => exact if_neg fun hm => hhkey hm.1
        have hnone'' : fieldMatch key (p :: rest) = none := by
          match rest with
          | [] | [_] => rfl
          | _ :: _ :: _ => exact if_neg fun hm => hpkey hm.1
        rw [List.cons_append, List.nil_append, searchFields_of_none f hnone,
          searchFields_of_none n hnone', searchFields_of_none h hnone'']
    | n' :: ns =>
      have hnone : fieldMatch key (n :: n' :: ns ++ h :: p :: rest) = none := by
        cases ns <;> exact if_neg fun hm => hcomplete (Or.inl hm)
      rw [searchFields_of_none f hnone, intercalate_length n (List.cons_ne_nil n' ns),
        List.getLast_cons (List.cons_ne_nil n' ns)]
      have hrest := ih (List.cons_ne_nil n' ns) (fun hin => hcomplete (Or.inr hin)) n
        (k + f.length + 1)
      rw [List.cons_append, hrest]
      congr 3 <;> omega

end Part

end Marker
end LsmFork
