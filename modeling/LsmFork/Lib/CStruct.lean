import Mathlib.Data.List.GetD
import Mathlib.Tactic

/-!
# Structs in memory

A C struct is laid out member after member, each at the next multiple of its alignment, and the
whole is rounded up to the largest alignment of a member.  The object in memory is a byte for each
offset.  Two members never overlap, so what is written to one is not seen in another; and in a
struct without padding the memory image is the members side by side, so that memory which has been
written member by member holds nothing of what it held before.

* `Mem`, `read`, `write`, `copy`: the memory of an object, and blocks of it.
* `CType`, `Decl`, `offset`, `sizeof`: a declaration and its layout.
* `readField_writeField`, `readField_writeField_of_ne`: a member that is written, and the others.
* `writeFields`, `readField_writeFields`: several members, one after another.
* `readField_copy`: a struct that has been copied.
* `read_eq_flatMap`: the image of a struct without padding.
-/

namespace LsmFork
namespace CStruct

/-! ## Memory -/

/-- The memory of one object: the byte at each offset. -/
abbrev Mem := ℕ → UInt8

/-- The `n` bytes from an offset on. -/
def read (mem : Mem) (off n : ℕ) : List UInt8 := (List.range n).map fun i => mem (off + i)

/-- Store a block from an offset on. -/
def write (mem : Mem) (off : ℕ) (bs : List UInt8) : Mem :=
  fun a => if off ≤ a then bs.getD (a - off) (mem a) else mem a

/-- Copy the first `n` bytes of another object. -/
def copy (dst src : Mem) (n : ℕ) : Mem := write dst 0 (read src 0 n)

@[simp] theorem read_length (mem : Mem) (off n : ℕ) : (read mem off n).length = n := by
  rw [read, List.length_map, List.length_range]

theorem read_add (mem : Mem) (off m n : ℕ) :
    read mem off (m + n) = read mem off m ++ read mem (off + m) n := by
  rw [read, List.range_add, List.map_append, List.map_map]
  simp only [read, Function.comp_def, Nat.add_assoc]

theorem read_congr {mem mem' : Mem} {off off' n : ℕ}
    (h : ∀ i < n, mem (off + i) = mem' (off' + i)) : read mem off n = read mem' off' n :=
  List.map_congr_left fun i hi => h i (List.mem_range.mp hi)

theorem read_write (mem : Mem) (off : ℕ) (bs : List UInt8) :
    read (write mem off bs) off bs.length = bs := by
  refine List.ext_getElem (read_length _ _ _) fun i _ hi => ?_
  simp only [read, write, List.getElem_map, List.getElem_range]
  rw [if_pos (Nat.le_add_right off i), Nat.add_sub_cancel_left, List.getD_eq_getElem _ _ hi]

theorem read_write_of_disjoint (mem : Mem) {off off' n : ℕ} {bs : List UInt8}
    (h : off' + n ≤ off ∨ off + bs.length ≤ off') :
    read (write mem off bs) off' n = read mem off' n := by
  refine read_congr fun i hi => ?_
  rw [write]
  split
  · exact List.getD_eq_default _ _ (by omega)
  · rfl

theorem write_append (mem : Mem) (off : ℕ) (bs bs' : List UInt8) :
    write (write mem off bs) (off + bs.length) bs' = write mem off (bs ++ bs') := by
  funext a
  simp only [write]
  by_cases hfirst : off + bs.length ≤ a
  · have hpast : bs.length ≤ a - off := by omega
    rw [if_pos hfirst, if_pos (by omega), if_pos (by omega), List.getD_eq_default _ _ hpast,
      List.getD_append_right _ _ _ _ hpast]
    congr 1
    omega
  · rw [if_neg hfirst]
    split
    · rw [List.getD_append _ _ _ _ (by omega)]
    · rfl

/-! ## Layout -/

/-- The member types that occur, with sizes and alignments of LP64. -/
inductive CType where
  | chars (n : ℕ)
  | ulong
  deriving DecidableEq

namespace CType

/-- `sizeof`. -/
def size : CType → ℕ
  | chars n => n
  | ulong => 8

/-- `alignof`. -/
def align : CType → ℕ
  | chars _ => 1
  | ulong => 8

end CType

/-- A struct declaration: the members in order. -/
abbrev Decl (φ : Type*) := List (φ × CType)

/-- The next multiple of an alignment. -/
def roundUp (n a : ℕ) : ℕ := (n + (a - 1)) / a * a

variable {φ : Type*}

/-- The end of the last member. -/
def endFrom : ℕ → Decl φ → ℕ
  | pos, [] => pos
  | pos, (_, t) :: d => endFrom (roundUp pos t.align + t.size) d

/-- `sizeof` the struct. -/
def sizeof (d : Decl φ) : ℕ :=
  roundUp (endFrom 0 d) ((d.map fun m => m.2.align).foldl max 1)

/-- No byte of the struct is outside its members. -/
def NoPadding (d : Decl φ) : Prop := sizeof d = (d.map fun m => m.2.size).sum

instance (d : Decl φ) : Decidable (NoPadding d) := inferInstanceAs (Decidable (_ = _))

/-- Each member once. -/
def Distinct (d : Decl φ) : Prop := (d.map Prod.fst).Nodup

instance [DecidableEq φ] (d : Decl φ) : Decidable (Distinct d) :=
  inferInstanceAs (Decidable (List.Nodup _))

theorem le_roundUp {a : ℕ} (ha : 0 < a) (n : ℕ) : n ≤ roundUp n a := by
  have hdiv := Nat.div_add_mod (n + (a - 1)) a
  have hmod := Nat.mod_lt (n + (a - 1)) ha
  rw [Nat.mul_comm] at hdiv
  rw [roundUp]
  omega

theorem align_pos (t : CType) : 0 < t.align := by
  cases t with
  | chars n => exact Nat.one_pos
  | ulong => decide

theorem le_endFrom (pos : ℕ) (d : Decl φ) : pos ≤ endFrom pos d := by
  induction d generalizing pos with
  | nil => exact le_refl pos
  | cons m d ih => exact ((le_roundUp (align_pos _) pos).trans (Nat.le_add_right _ _)).trans (ih _)

theorem endFrom_le_sizeof (d : Decl φ) : endFrom 0 d ≤ sizeof d := by
  have hone : ∀ (l : List ℕ) (n : ℕ), 1 ≤ n → 0 < l.foldl max n := by
    intro l
    induction l with
    | nil => exact fun n hn => hn
    | cons a l ih => exact fun n hn => ih _ (hn.trans (le_max_left n a))
  exact le_roundUp (hone _ 1 le_rfl) _

theorem sum_le_endFrom (pos : ℕ) (d : Decl φ) :
    pos + (d.map fun m => m.2.size).sum ≤ endFrom pos d := by
  induction d generalizing pos with
  | nil => exact le_refl pos
  | cons m d ih =>
    have hstart := le_roundUp (align_pos m.2) pos
    have htail := ih (roundUp pos m.2.align + m.2.size)
    rw [List.map_cons, List.sum_cons]
    show _ ≤ endFrom (roundUp pos m.2.align + m.2.size) d
    omega

section Members

variable [DecidableEq φ]

/-- The offset and the size of a member, in a declaration whose members come from `pos` on. -/
def placeFrom (f : φ) : ℕ → Decl φ → ℕ × ℕ
  | pos, [] => (pos, 0)
  | pos, (g, t) :: d =>
    if g = f then (roundUp pos t.align, t.size)
    else placeFrom f (roundUp pos t.align + t.size) d

/-- `offsetof`. -/
def offset (d : Decl φ) (f : φ) : ℕ := (placeFrom f 0 d).1

/-- The size of a member. -/
def fieldSize (d : Decl φ) (f : φ) : ℕ := (placeFrom f 0 d).2

/-- A member of an object. -/
def readField (d : Decl φ) (mem : Mem) (f : φ) : List UInt8 := read mem (offset d f) (fieldSize d f)

/-- Store a member. -/
def writeField (d : Decl φ) (mem : Mem) (f : φ) (bs : List UInt8) : Mem :=
  write mem (offset d f) bs

theorem placeFrom_self {f : φ} {t : CType} {pos : ℕ} {d : Decl φ} :
    placeFrom f pos ((f, t) :: d) = (roundUp pos t.align, t.size) := if_pos rfl

theorem placeFrom_of_ne {f g : φ} {t : CType} {pos : ℕ} {d : Decl φ} (h : g ≠ f) :
    placeFrom f pos ((g, t) :: d) = placeFrom f (roundUp pos t.align + t.size) d := if_neg h

/-- A member lies between the start and the end. -/
theorem placeFrom_bounds {f : φ} {pos : ℕ} {d : Decl φ} (hf : f ∈ d.map Prod.fst) :
    pos ≤ (placeFrom f pos d).1 ∧
      (placeFrom f pos d).1 + (placeFrom f pos d).2 ≤ endFrom pos d := by
  induction d generalizing pos with
  | nil => cases hf
  | cons m d ih =>
    obtain ⟨g, t⟩ := m
    have hstart := le_roundUp (align_pos t) pos
    by_cases hg : g = f
    · subst hg
      rw [placeFrom_self]
      exact ⟨hstart, le_endFrom _ d⟩
    · have hmem : f ∈ d.map Prod.fst := (List.mem_cons.mp hf).resolve_left (Ne.symm hg)
      obtain ⟨hle, hend⟩ := @ih (roundUp pos t.align + t.size) hmem
      rw [placeFrom_of_ne hg]
      exact ⟨by omega, hend⟩

/-- **Two members do not overlap.** -/
theorem placeFrom_disjoint {f g : φ} {pos : ℕ} {d : Decl φ} (hf : f ∈ d.map Prod.fst)
    (hg : g ∈ d.map Prod.fst) (hne : f ≠ g) :
    (placeFrom f pos d).1 + (placeFrom f pos d).2 ≤ (placeFrom g pos d).1 ∨
      (placeFrom g pos d).1 + (placeFrom g pos d).2 ≤ (placeFrom f pos d).1 := by
  induction d generalizing pos with
  | nil => cases hf
  | cons m d ih =>
    obtain ⟨h, t⟩ := m
    by_cases hhf : h = f
    · -- the first of the two comes first
      subst hhf
      have hmem : g ∈ d.map Prod.fst := (List.mem_cons.mp hg).resolve_left hne.symm
      rw [placeFrom_self, placeFrom_of_ne hne]
      exact Or.inl (placeFrom_bounds hmem).1
    · by_cases hhg : h = g
      · subst hhg
        have hmem : f ∈ d.map Prod.fst := (List.mem_cons.mp hf).resolve_left hne
        rw [placeFrom_self, placeFrom_of_ne hhf]
        exact Or.inr (placeFrom_bounds hmem).1
      · rw [placeFrom_of_ne hhf, placeFrom_of_ne hhg]
        exact ih ((List.mem_cons.mp hf).resolve_left (Ne.symm hhf))
          ((List.mem_cons.mp hg).resolve_left (Ne.symm hhg))

/-! ## Members -/

variable {d : Decl φ} {f g : φ} {bs : List UInt8}

@[simp] theorem readField_length (d : Decl φ) (mem : Mem) (f : φ) :
    (readField d mem f).length = fieldSize d f := read_length _ _ _

/-- **A member that has been written** is read back. -/
theorem readField_writeField (mem : Mem) (hlen : bs.length = fieldSize d f) :
    readField d (writeField d mem f bs) f = bs := by
  rw [readField, writeField, ← hlen]
  exact read_write _ _ _

/-- **The other members** do not change. -/
theorem readField_writeField_of_ne (mem : Mem) (hf : f ∈ d.map Prod.fst) (hg : g ∈ d.map Prod.fst)
    (hne : f ≠ g) (hlen : bs.length = fieldSize d f) :
    readField d (writeField d mem f bs) g = readField d mem g := by
  refine read_write_of_disjoint mem ?_
  rw [hlen]
  exact (placeFrom_disjoint hg hf hne.symm)

theorem readField_writeField_eq (mem : Mem) (hf : f ∈ d.map Prod.fst) (hg : g ∈ d.map Prod.fst)
    (hlen : bs.length = fieldSize d f) :
    readField d (writeField d mem f bs) g = if g = f then bs else readField d mem g := by
  split
  · rename_i hgf
    rw [hgf]
    exact readField_writeField mem hlen
  · rename_i hne
    exact readField_writeField_of_ne mem hf hg (Ne.symm hne) hlen

/-- Store some members one after another. -/
def writeFields (d : Decl φ) (value : φ → List UInt8) (mem : Mem) (fs : List φ) : Mem :=
  fs.foldl (fun mem f => writeField d mem f (value f)) mem

/-- **The members that have been stored** are read back, and the others do not change. -/
theorem readField_writeFields {value : φ → List UInt8}
    (hlen : ∀ f, (value f).length = fieldSize d f) {fs : List φ}
    (hfs : ∀ f ∈ fs, f ∈ d.map Prod.fst) (hg : g ∈ d.map Prod.fst) (mem : Mem) :
    readField d (writeFields d value mem fs) g =
      if g ∈ fs then value g else readField d mem g := by
  induction fs generalizing mem with
  | nil => rw [if_neg List.not_mem_nil]; rfl
  | cons f fs ih =>
    obtain ⟨hf, hfs⟩ := List.forall_mem_cons.mp hfs
    have hrest : writeFields d value mem (f :: fs) =
        writeFields d value (writeField d mem f (value f)) fs := rfl
    rw [hrest, ih hfs, readField_writeField_eq mem hf hg (hlen f)]
    by_cases hgfs : g ∈ fs
    · rw [if_pos hgfs, if_pos (List.mem_cons_of_mem f hgfs)]
    · by_cases hgf : g = f
      · rw [if_neg hgfs, if_pos hgf, if_pos (hgf ▸ List.mem_cons_self), hgf]
      · rw [if_neg hgfs, if_neg hgf, if_neg]
        exact fun h => (List.mem_cons.mp h).elim hgf hgfs

/-- **A struct that has been copied** has the members of the original. -/
theorem readField_copy (dst src : Mem) (hf : f ∈ d.map Prod.fst) :
    readField d (copy dst src (sizeof d)) f = readField d src f := by
  rw [copy]
  have hend : offset d f + fieldSize d f ≤ sizeof d :=
    (placeFrom_bounds hf).2.trans (endFrom_le_sizeof d)
  have hpart : ∀ m : Mem, readField d m f =
      ((read m 0 (sizeof d)).drop (offset d f)).take (fieldSize d f) := by
    intro m
    have hsplit : sizeof d = offset d f + fieldSize d f +
        (sizeof d - (offset d f + fieldSize d f)) := by omega
    rw [hsplit, read_add, read_add, Nat.zero_add, List.append_assoc,
      List.drop_left' (read_length _ _ _), List.take_left' (read_length _ _ _)]
    rfl
  have hread : read (write dst 0 (read src 0 (sizeof d))) 0 (sizeof d) = read src 0 (sizeof d) := by
    have hwritten := read_write dst 0 (read src 0 (sizeof d))
    rwa [read_length] at hwritten
  rw [hpart, hread, ← hpart]

/-! ## Structs without padding -/

theorem read_eq_flatMap_from (mem : Mem) {pos : ℕ} {d : Decl φ} (hdistinct : Distinct d)
    (hend : endFrom pos d = pos + (d.map fun m => m.2.size).sum) :
    read mem pos (d.map fun m => m.2.size).sum =
      d.flatMap fun m => read mem (placeFrom m.1 pos d).1 (placeFrom m.1 pos d).2 := by
  induction d generalizing pos with
  | nil => rfl
  | cons m d ih =>
    obtain ⟨g, t⟩ := m
    have hstart := le_roundUp (align_pos t) pos
    have htail := sum_le_endFrom (roundUp pos t.align + t.size) d
    rw [List.map_cons, List.sum_cons, endFrom] at hend
    rw [List.map_cons, List.sum_cons]
    dsimp only at hend ⊢
    have hpos : roundUp pos t.align = pos := by omega
    rw [hpos] at hend
    obtain ⟨hg, hdistinct⟩ := List.nodup_cons.mp hdistinct
    have hothers : ∀ m ∈ d, placeFrom m.1 pos ((g, t) :: d) = placeFrom m.1 (pos + t.size) d := by
      intro m hm
      have hmem : m.1 ∈ d.map Prod.fst := List.mem_map_of_mem hm
      have hne : g ≠ m.1 := fun h => hg (h ▸ hmem)
      rw [placeFrom_of_ne hne, hpos]
    rw [read_add, ih hdistinct (by omega), List.flatMap_cons, placeFrom_self, hpos]
    congr 1
    exact List.flatMap_congr fun m hm => by rw [hothers m hm]

/-- **The image of a struct without padding** is its members side by side. -/
theorem read_eq_flatMap (mem : Mem) {d : Decl φ} (hdistinct : Distinct d) (hpadding : NoPadding d) :
    read mem 0 (sizeof d) = d.flatMap fun m => readField d mem m.1 := by
  have hle := endFrom_le_sizeof d
  have hge := sum_le_endFrom 0 d
  have hend : endFrom 0 d = 0 + (d.map fun m => m.2.size).sum := by
    rw [hpadding] at hle
    omega
  rw [hpadding]
  exact read_eq_flatMap_from mem hdistinct hend

end Members

end CStruct
end LsmFork
