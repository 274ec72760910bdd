import Mathlib.Data.List.Induction
import ReversePolish.SourceMap.Table

/-!
# The mapping that covers a place

A place of the code is looked up in a table by one pass over it, which keeps the best mapping
found so far.  Tables from elsewhere need not be in order, and several mappings of one may start
at the same place.  Whatever the order, the pass finds the mapping on the line that starts
farthest to the right without starting to the right of the place, and of several such mappings
the last.

The table is taken apart from its end, because that is where the pass has its last say: a
further mapping either becomes the best one or changes nothing (`covering?_concat`).

## Main results

* `covering?_eq_none_iff` — when no mapping covers a place.
* `covering?_eq_some_iff` — which mapping covers a place.
* `lookup_greatest_lower_bound` — the same for a source map, with the fault of a map that cannot
  be decoded.
-/

namespace ReversePolish

/-- Whether a mapping stands on the line of a place and does not start to the right of it. -/
def Mapping.Reaches (m : Mapping) (place : LineColumn) : Prop :=
  m.generated.line = place.line ∧ m.generated.column ≤ place.column

instance (m : Mapping) (place : LineColumn) : Decidable (m.Reaches place) :=
  inferInstanceAs (Decidable (_ ∧ _))

namespace SourceMap

/-- The mapping of a table at an index is the nearest to a place, and the last such. -/
structure NearestAt (table : List Mapping) (place : LineColumn) (i : Nat) (m : Mapping) :
    Prop where
  found : table[i]? = some m
  reaches : m.Reaches place
  greatest : ∀ n ∈ table, n.Reaches place → n.generated.column ≤ m.generated.column
  last : ∀ j n, i < j → table[j]? = some n → n.generated.line = place.line →
    n.generated.column ≠ m.generated.column

/-! ## One pass over a table -/

/-- A further mapping takes part in a lookup only if it reaches the place. -/
theorem covering?_concat (table : List Mapping) (m : Mapping) (place : LineColumn) :
    covering? (table ++ [m]) place =
      if m.Reaches place then rightmost (covering? table place) m
      else covering? table place := by
  rw [covering?, List.filter_append, List.foldl_append]
  by_cases hReaches : m.Reaches place
  · rw [if_pos hReaches, List.filter_cons_of_pos (by simpa [Mapping.Reaches] using hReaches)]
    rfl
  · rw [if_neg hReaches, List.filter_cons_of_neg (by simpa [Mapping.Reaches] using hReaches)]
    rfl

theorem rightmost_ne_none (best : Option Mapping) (m : Mapping) : rightmost best m ≠ none := by
  cases best with
  | none => simp [rightmost]
  | some b =>
      rw [rightmost]
      split <;> simp

/-- No mapping covers a place exactly if none reaches it. -/
theorem covering?_eq_none_iff {table : List Mapping} {place : LineColumn} :
    covering? table place = none ↔ ∀ m ∈ table, ¬ m.Reaches place := by
  induction table using List.reverseRecOn with
  | nil => simp [covering?]
  | append_singleton table m ih =>
      rw [covering?_concat, List.forall_mem_append, List.forall_mem_singleton, ← ih]
      by_cases hReaches : m.Reaches place
      · simp [hReaches, rightmost_ne_none]
      · simp [hReaches]

/-- A mapping that becomes the best one is the nearest of the longer table. -/
theorem NearestAt.of_concat_self {table : List Mapping} {place : LineColumn} {m : Mapping}
    (hReaches : m.Reaches place)
    (hGreatest : ∀ n ∈ table, n.Reaches place → n.generated.column ≤ m.generated.column) :
    NearestAt (table ++ [m]) place table.length m := by
  refine ⟨List.getElem?_concat_length, hReaches, ?_, ?_⟩
  · rw [List.forall_mem_append, List.forall_mem_singleton]
    exact ⟨hGreatest, fun _ => Nat.le_refl _⟩
  · intro j n hLater hFound
    rw [List.getElem?_eq_none (by simp; omega)] at hFound
    cases hFound

/-- The nearest mapping stays the nearest if the next one does not reach the place, or starts
farther to the left. -/
theorem NearestAt.concat {table : List Mapping} {place : LineColumn} {i : Nat} {m n : Mapping}
    (h : NearestAt table place i m)
    (hLeft : n.Reaches place → n.generated.column < m.generated.column) :
    NearestAt (table ++ [n]) place i m := by
  have hIndex : i < table.length := (List.getElem?_eq_some_iff.1 h.found).1
  refine ⟨?_, h.reaches, ?_, ?_⟩
  · rw [List.getElem?_append_left hIndex]
    exact h.found
  · rw [List.forall_mem_append, List.forall_mem_singleton]
    exact ⟨h.greatest, fun hReaches => Nat.le_of_lt (hLeft hReaches)⟩
  · intro j n' hLater hFound hLine
    by_cases hInside : j < table.length
    · rw [List.getElem?_append_left hInside] at hFound
      exact h.last j n' hLater hFound hLine
    · -- What stands behind the table can only be the next mapping.
      rw [List.getElem?_append_right (by omega), List.getElem?_singleton] at hFound
      split at hFound
      · cases hFound
        intro hColumn
        have hReaches : n.Reaches place := ⟨hLine, hColumn ▸ h.reaches.2⟩
        have hSmaller := hLeft hReaches
        omega
      · cases hFound

/-- What a lookup finds is the nearest mapping. -/
theorem exists_nearestAt_of_covering? {table : List Mapping} {place : LineColumn} {m : Mapping}
    (h : covering? table place = some m) : ∃ i, NearestAt table place i m := by
  induction table using List.reverseRecOn generalizing m with
  | nil => cases h
  | append_singleton table n ih =>
      rw [covering?_concat] at h
      by_cases hReaches : n.Reaches place
      · rw [if_pos hReaches] at h
        cases hBest : covering? table place with
        | none =>
            rw [hBest] at h
            cases h
            have hNone := covering?_eq_none_iff.1 hBest
            exact ⟨_, .of_concat_self hReaches fun n' hn' hReaches' =>
              absurd hReaches' (hNone n' hn')⟩
        | some best =>
            obtain ⟨i, hNearest⟩ := ih hBest
            rw [hBest, rightmost] at h
            by_cases hColumn : best.generated.column ≤ n.generated.column
            · rw [if_pos hColumn] at h
              cases h
              exact ⟨_, .of_concat_self hReaches fun n' hn' hReaches' =>
                Nat.le_trans (hNearest.greatest n' hn' hReaches') hColumn⟩
            · rw [if_neg hColumn] at h
              cases h
              exact ⟨i, hNearest.concat fun _ => Nat.lt_of_not_le hColumn⟩
      · rw [if_neg hReaches] at h
        obtain ⟨i, hNearest⟩ := ih h
        exact ⟨i, hNearest.concat fun hReaches' => absurd hReaches' hReaches⟩

/-- The nearest mapping stands at one index only. -/
theorem NearestAt.index_unique {table : List Mapping} {place : LineColumn} {i j : Nat}
    {m n : Mapping} (h : NearestAt table place i m) (h' : NearestAt table place j n) :
    i = j := by
  have hColumn : m.generated.column = n.generated.column :=
    Nat.le_antisymm (h'.greatest m (List.mem_of_getElem? h.found) h.reaches)
      (h.greatest n (List.mem_of_getElem? h'.found) h'.reaches)
  rcases Nat.lt_trichotomy i j with hLater | hSame | hLater
  · exact absurd hColumn.symm (h.last j n hLater h'.found h'.reaches.1)
  · exact hSame
  · exact absurd hColumn (h'.last i m hLater h.found h.reaches.1)

/-- The mapping that covers a place is the nearest one. -/
theorem covering?_eq_some_iff {table : List Mapping} {place : LineColumn} {m : Mapping} :
    covering? table place = some m ↔ ∃ i, NearestAt table place i m := by
  refine ⟨exists_nearestAt_of_covering?, ?_⟩
  rintro ⟨i, hNearest⟩
  cases hFound : covering? table place with
  | none =>
      have hMem := List.mem_of_getElem? hNearest.found
      exact absurd hNearest.reaches (covering?_eq_none_iff.1 hFound m hMem)
  | some n =>
      obtain ⟨j, hOther⟩ := exists_nearestAt_of_covering? hFound
      have hSame := hOther.found
      rw [← hNearest.index_unique hOther, hNearest.found] at hSame
      exact hSame.symm

/-! ## Source maps -/

/-- **A lookup finds the greatest lower bound.**  In a source map that can be decoded, nothing is
found for a place if no mapping of the table stands on its line and does not start to the right
of it.  Otherwise the mapping that is found is such a mapping of the table.  No other such mapping
starts farther to the right, and no later mapping on the line starts at the same column.  A map
that cannot be decoded fails with the fault of the decoding. -/
theorem lookup_greatest_lower_bound (map : SourceMap) (place : LineColumn) :
    (∀ fault, map.lookup place = .error fault ↔ map.decode = .error fault) ∧
    (map.lookup place = .ok none ↔
      ∃ table, map.decode = .ok table ∧ ∀ m ∈ table, ¬ m.Reaches place) ∧
    ∀ m, map.lookup place = .ok (some m) ↔
      ∃ table, map.decode = .ok table ∧ ∃ i, NearestAt table place i m := by
  rw [lookup]
  cases map.decode with
  | error fault => simp [Except.map]
  | ok table => simp [Except.map, covering?_eq_none_iff, covering?_eq_some_iff]

/-- Of two mappings that start at the same column the later one is found, although a mapping
farther to the left stands between them. -/
example : covering? [⟨⟨3, 5⟩, ⟨1, 0⟩, "p.rpn", "a"⟩, ⟨⟨3, 2⟩, ⟨1, 2⟩, "p.rpn", "b"⟩,
    ⟨⟨3, 5⟩, ⟨1, 4⟩, "p.rpn", "c"⟩, ⟨⟨3, 9⟩, ⟨1, 6⟩, "p.rpn", "d"⟩] ⟨3, 7⟩ =
      some ⟨⟨3, 5⟩, ⟨1, 4⟩, "p.rpn", "c"⟩ := by
  decide

end SourceMap

end ReversePolish
