import Mathlib.Order.Lattice
import Mathlib.Data.List.Basic

/-! Maps as lists of entries in ascending order of their keys. A key inserted again
takes the new value. -/
namespace OrderedMap
variable {K V : Type} [LinearOrder K]

def insert (key : K) (value : V) : List (K × V) → List (K × V)
  | [] => [(key, value)]
  | (other, old) :: rest =>
      if key < other then (key, value) :: (other, old) :: rest
      else if key = other then (key, value) :: rest
      else (other, old) :: insert key value rest

/-- The entries inserted one after the other. -/
def insertAll (map entries : List (K × V)) : List (K × V) :=
  entries.foldl (fun map entry => insert entry.1 entry.2 map) map

def ofList (entries : List (K × V)) : List (K × V) := insertAll [] entries

def get (key : K) : List (K × V) → Option V
  | [] => none
  | (other, value) :: rest => if key = other then some value else get key rest

/-- The value of the last entry for a key. -/
def last (key : K) : List (K × V) → Option V
  | [] => none
  | (other, value) :: rest => (last key rest).or (if key = other then some value else none)

def Ascending (map : List (K × V)) : Prop := (map.map Prod.fst).Pairwise (· < ·)

theorem get_insert (key other : K) (value : V) (map : List (K × V)) :
    get key (insert other value map) = if key = other then some value else get key map := by
  induction map with
  | nil => rfl
  | cons entry rest ih =>
      obtain ⟨here, old⟩ := entry
      simp only [insert]
      split
      · rfl
      · split
        · rename_i same
          subst same
          simp only [get]
          split
          · rfl
          · rfl
        · rename_i differs
          simp only [get, ih]
          by_cases first : key = here
          · have other' : key ≠ other := fun same => differs (same.symm.trans first)
            simp only [first, if_true]
            rw [if_neg (fun same => differs same.symm)]
          · simp only [first, if_false]

theorem get_insertAll (key : K) (map entries : List (K × V)) :
    get key (insertAll map entries) = (last key entries).or (get key map) := by
  induction entries generalizing map with
  | nil => rfl
  | cons entry rest ih =>
      obtain ⟨other, value⟩ := entry
      rw [insertAll, List.foldl_cons, ← insertAll, ih, get_insert, last]
      cases last key rest with
      | some value => rfl
      | none =>
          simp only [Option.none_or]
          split
          · rfl
          · rfl

theorem get_ofList (key : K) (entries : List (K × V)) : get key (ofList entries) = last key entries := by
  rw [ofList, get_insertAll]
  exact Option.or_none

theorem mem_insert {key : K} {value : V} {map : List (K × V)} {entry : K × V}
    (member : entry ∈ insert key value map) : entry = (key, value) ∨ entry ∈ map := by
  induction map with
  | nil => exact .inl (List.mem_singleton.mp member)
  | cons first rest ih =>
      obtain ⟨other, old⟩ := first
      rw [insert] at member
      split at member
      · exact (List.mem_cons.mp member)
      · split at member
        · exact (List.mem_cons.mp member).imp id (List.mem_cons_of_mem _)
        · rcases List.mem_cons.mp member with here | later
          · exact .inr (here ▸ List.mem_cons_self)
          · exact (ih later).imp id (List.mem_cons_of_mem _)

theorem mem_insertAll {map entries : List (K × V)} {entry : K × V}
    (member : entry ∈ insertAll map entries) : entry ∈ map ∨ entry ∈ entries := by
  induction entries generalizing map with
  | nil => exact .inl member
  | cons first rest ih =>
      rcases ih member with old | later
      · rcases mem_insert old with rfl | before
        · exact .inr List.mem_cons_self
        · exact .inl before
      · exact .inr (List.mem_cons_of_mem _ later)

theorem mem_ofList {entries : List (K × V)} {entry : K × V} (member : entry ∈ ofList entries) :
    entry ∈ entries :=
  (mem_insertAll member).resolve_left List.not_mem_nil

theorem ascending_cons {key : K} {value : V} {map : List (K × V)} :
    Ascending ((key, value) :: map) ↔ (∀ entry ∈ map, key < entry.1) ∧ Ascending map := by
  simp [Ascending, List.pairwise_cons]

theorem insert_ascending (key : K) (value : V) {map : List (K × V)} (ordered : Ascending map) :
    Ascending (insert key value map) := by
  induction map with
  | nil => exact List.pairwise_singleton _ _
  | cons entry rest ih =>
      obtain ⟨other, old⟩ := entry
      obtain ⟨above, tail⟩ := ascending_cons.mp ordered
      rw [insert]
      split
      · rename_i below
        refine ascending_cons.mpr ⟨?_, ordered⟩
        intro entry member
        rcases List.mem_cons.mp member with rfl | later
        · exact below
        · exact below.trans (above entry later)
      · split
        · rename_i same
          exact ascending_cons.mpr ⟨same ▸ above, tail⟩
        · rename_i notBelow differs
          refine ascending_cons.mpr ⟨?_, ih tail⟩
          intro entry member
          rcases mem_insert member with rfl | later
          · exact lt_of_le_of_ne (not_lt.mp notBelow) (Ne.symm differs)
          · exact above entry later

theorem insertAll_ascending {map : List (K × V)} (ordered : Ascending map) (entries : List (K × V)) :
    Ascending (insertAll map entries) := by
  induction entries generalizing map with
  | nil => exact ordered
  | cons entry rest ih => exact ih (insert_ascending entry.1 entry.2 ordered)

theorem last_of_notMem {key : K} {map : List (K × V)} (absent : key ∉ map.map Prod.fst) :
    last key map = none := by
  induction map with
  | nil => rfl
  | cons entry rest ih =>
      rw [List.map_cons, List.mem_cons, not_or] at absent
      rw [last, ih absent.2, if_neg absent.1]
      rfl

theorem last_map {W : Type} (f : V → W) (key : K) (entries : List (K × V)) :
    last key (entries.map fun entry => (entry.1, f entry.2)) = (last key entries).map f := by
  induction entries with
  | nil => rfl
  | cons entry rest ih =>
      rw [List.map_cons, last, last, ih]
      cases last key rest with
      | some found => rfl
      | none =>
          simp only [Option.map_none, Option.none_or]
          split <;> rfl

/-- Where no key comes twice, every entry is the last one of its key. -/
theorem last_of_mem {entries : List (K × V)} (distinct : (entries.map Prod.fst).Nodup)
    {entry : K × V} (member : entry ∈ entries) : last entry.1 entries = some entry.2 := by
  induction entries with
  | nil => cases member
  | cons first rest ih =>
      rw [List.map_cons, List.nodup_cons] at distinct
      rw [last]
      rcases List.mem_cons.mp member with rfl | later
      · rw [last_of_notMem distinct.1, if_pos rfl]
        rfl
      · rw [ih distinct.2 later]
        rfl

theorem last_eq_get (key : K) {map : List (K × V)} (ordered : Ascending map) :
    last key map = get key map := by
  induction map with
  | nil => rfl
  | cons entry rest ih =>
      obtain ⟨other, value⟩ := entry
      obtain ⟨above, tail⟩ := ascending_cons.mp ordered
      rw [last, get]
      split
      · rename_i same
        have absent : key ∉ rest.map Prod.fst := by
          intro inside
          obtain ⟨entry, member, found⟩ := List.mem_map.mp inside
          exact absurd (above entry member) (by rw [found, same]; exact lt_irrefl other)
        rw [last_of_notMem absent]
        rfl
      · rw [ih tail]
        exact Option.or_none

theorem ofList_ascending (entries : List (K × V)) : Ascending (ofList entries) := by
  have empty : Ascending ([] : List (K × V)) := List.Pairwise.nil
  exact insertAll_ascending empty entries

theorem last_ofList (key : K) (entries : List (K × V)) : last key (ofList entries) = last key entries := by
  rw [last_eq_get key (ofList_ascending entries), get_ofList]

theorem ofList_eq_nil {entries : List (K × V)} : ofList entries = [] ↔ entries = [] := by
  constructor
  · intro empty
    cases entries with
    | nil => rfl
    | cons entry rest =>
        have found := last_ofList entry.1 (entry :: rest)
        rw [empty, last, last, if_pos rfl] at found
        simp at found
  · intro empty
    rw [empty]
    rfl

/-- A key above all others goes to the end. -/
theorem insert_above {key : K} (value : V) {map : List (K × V)}
    (above : ∀ entry ∈ map, entry.1 < key) : insert key value map = map ++ [(key, value)] := by
  induction map with
  | nil => rfl
  | cons entry rest ih =>
      obtain ⟨here, later⟩ := List.forall_mem_cons.mp above
      rw [insert, if_neg (lt_asymm here), if_neg (ne_of_gt here), ih later, List.cons_append]

theorem insertAll_append {map entries : List (K × V)} (ordered : Ascending (map ++ entries)) :
    insertAll map entries = map ++ entries := by
  induction entries generalizing map with
  | nil => exact (List.append_nil map).symm
  | cons entry rest ih =>
      obtain ⟨key, value⟩ := entry
      have above : ∀ entry ∈ map, entry.1 < key := by
        intro entry member
        rw [Ascending, List.map_append, List.pairwise_append] at ordered
        exact ordered.2.2 entry.1 (List.mem_map_of_mem member) key List.mem_cons_self
      rw [insertAll, List.foldl_cons, ← insertAll, insert_above value above]
      rw [ih (by rwa [List.append_assoc]), List.append_assoc]
      rfl

/-- A list of entries is its own map if and only if its keys ascend. -/
theorem ofList_eq_self {entries : List (K × V)} : ofList entries = entries ↔ Ascending entries := by
  constructor
  · intro same
    rw [← same]
    exact ofList_ascending entries
  · intro ordered
    exact insertAll_append ordered

end OrderedMap
