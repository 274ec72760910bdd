import Mathlib.Data.List.DropRight
import ReversePolish.Path
import ReversePolish.Proofs.Cutting

/-!
# Paths that are the same

A path is read as its anchor and the parts behind it that name something.  Two texts with the
same anchor and the same such parts are the same path, however many slashes and points stand
between the parts.

## Main results

* `Path.names_join` — a path inside a directory has the names of both.
* `Path.names_parent` — a path has the names of its directory and its file name.
* `Path.fileName?_join`, `Path.parent?_join` — a plain name beside a file.
-/

namespace ReversePolish

namespace Text

theorem not_mem_of_mem_split {sep : Char} {cs part : List Char} (h : part ∈ split sep cs) :
    sep ∉ part := by
  induction cs generalizing part with
  | nil =>
      rw [split_nil, List.mem_singleton] at h
      rw [h]
      exact List.not_mem_nil
  | cons c cs ih =>
      obtain ⟨first, rest, hParts⟩ := exists_split sep cs
      rw [split_cons, hParts] at h
      rw [hParts] at ih
      by_cases hSep : c = sep
      · rw [if_pos hSep] at h
        rcases List.mem_cons.1 h with rfl | hMem
        · exact List.not_mem_nil
        · exact ih hMem
      · rw [if_neg hSep, consHead] at h
        rcases List.mem_cons.1 h with rfl | hMem
        · rw [List.mem_cons, not_or]
          exact ⟨Ne.symm hSep, ih List.mem_cons_self⟩
        · exact ih (List.mem_cons_of_mem _ hMem)

theorem split_of_not_mem {sep : Char} {cs : List Char} (h : sep ∉ cs) : split sep cs = [cs] := by
  have hParts := split_append h (split_nil sep)
  rwa [List.append_nil] at hParts

/-- Joined parts are cut into the parts. -/
theorem split_join {sep : Char} {parts : List (List Char)} (hParts : parts ≠ [])
    (h : ∀ part ∈ parts, sep ∉ part) : split sep (join [sep] parts) = parts := by
  fun_induction join [sep] parts with
  | case1 => exact absurd rfl hParts
  | case2 part => exact split_of_not_mem (h part List.mem_cons_self)
  | case3 part parts hMore ih =>
      rw [List.forall_mem_cons] at h
      rw [List.append_assoc, List.singleton_append, split_append_sep h.1, ih hMore h.2]

/-- Parts that were cut are joined to the text again. -/
theorem join_split (sep : Char) (cs : List Char) : join [sep] (split sep cs) = cs := by
  induction cs with
  | nil => rfl
  | cons c cs ih =>
      obtain ⟨part, parts, hParts⟩ := exists_split sep cs
      rw [hParts] at ih
      rw [split_cons, hParts]
      by_cases hSep : c = sep
      · rw [if_pos hSep, hSep]
        show [sep] ++ join [sep] (part :: parts) = sep :: cs
        rw [ih, List.singleton_append]
      · rw [if_neg hSep]
        cases parts with
        | nil => exact congrArg (c :: ·) ih
        | cons next parts => exact congrArg (c :: ·) ih

/-- A text has something without separators behind its last separator. -/
theorem exists_last_part (sep : Char) (cs : List Char) :
    ∃ last, sep ∉ last ∧ (cs = last ∨ ∃ front, cs = front ++ sep :: last) := by
  induction cs with
  | nil => exact ⟨[], List.not_mem_nil, Or.inl rfl⟩
  | cons c cs ih =>
      obtain ⟨last, hLast, rfl | ⟨front, rfl⟩⟩ := ih
      · by_cases hSep : c = sep
        · exact ⟨cs, hLast, Or.inr ⟨[], by rw [hSep, List.nil_append]⟩⟩
        · refine ⟨c :: cs, ?_, Or.inl rfl⟩
          rw [List.mem_cons, not_or]
          exact ⟨Ne.symm hSep, hLast⟩
      · exact ⟨last, hLast, Or.inr ⟨c :: front, rfl⟩⟩

end Text

namespace Path

theorem isSignificant_eq_false_iff {part : List Char} :
    isSignificant part = false ↔ part = [] ∨ part = ['.'] := by
  simp [isSignificant, or_iff_not_imp_left]

/-- A longer part than a single point names something. -/
theorem isSignificant_append {cs : List Char} (h : cs ≠ []) (c : Char) (ds : List Char) :
    isSignificant (cs ++ c :: ds) = true := by
  obtain ⟨d, cs, rfl⟩ := List.exists_cons_of_ne_nil h
  simp [isSignificant]

/-! ## Anchors -/

theorem split_point_slash (body : List Char) :
    Text.split '/' ('.' :: '/' :: body) = ['.'] :: Text.split '/' body :=
  @Text.split_append_sep '/' ['.'] (by decide) body

/-- A text that starts with a significant part has no anchor. -/
theorem anchor_eq_of_split {cs first : List Char} {rest : List (List Char)}
    (hParts : Text.split '/' cs = first :: rest) (hFirst : isSignificant first = true) :
    anchor cs = ([], cs) := by
  fun_cases anchor cs with
  | case1 body =>
      rw [Text.split_cons, if_pos rfl] at hParts
      cases hParts
      cases hFirst
  | case2 =>
      cases hParts
      cases hFirst
  | case3 body =>
      rw [split_point_slash] at hParts
      cases hParts
      cases hFirst
  | case4 => rfl

/-- A text without an anchor starts with a significant part, if another part follows. -/
theorem isSignificant_first {cs first next : List Char} {rest : List (List Char)}
    (hSlash : ∀ body, cs = '/' :: body → False)
    (hPoint : ∀ body, cs = '.' :: '/' :: body → False)
    (hParts : Text.split '/' cs = first :: next :: rest) : isSignificant first = true := by
  have hText := Text.join_split '/' cs
  rw [hParts] at hText
  cases hFirst : isSignificant first with
  | true => rfl
  | false =>
      rcases isSignificant_eq_false_iff.1 hFirst with rfl | rfl
      · exact absurd hText.symm (hSlash _)
      · exact absurd hText.symm (hPoint _)

/-- What follows a slash behind some text does not change the text's anchor. -/
theorem anchor_append_slash {cs : List Char} (h : cs ≠ []) (ds : List Char) :
    anchor (cs ++ '/' :: ds) = ((anchor cs).1, (anchor cs).2 ++ '/' :: ds) := by
  fun_cases anchor cs with
  | case1 body => rfl
  | case2 => rfl
  | case3 body => rfl
  | case4 body hSlash hPoint hPointSlash =>
      obtain ⟨c, cs, rfl⟩ := List.exists_cons_of_ne_nil h
      show anchor (c :: (cs ++ '/' :: ds)) = ([], c :: (cs ++ '/' :: ds))
      generalize hText : c :: (cs ++ '/' :: ds) = text
      fun_cases anchor text with
      | case1 body =>
          cases hText
          exact absurd rfl (hSlash cs)
      | case2 => simp at hText
      | case3 body =>
          cases cs with
          | nil =>
              cases hText
              exact absurd rfl hPoint
          | cons d cs =>
              cases hText
              exact absurd rfl (hPointSlash cs)
      | case4 => rfl

/-! ## Names -/

/-- The parts behind the anchor that name something. -/
def names (path : String) : List (List Char) :=
  (Text.split '/' (anchor path.toList).2).filter isSignificant

/-- Whether two texts are the same path. -/
def Same (path other : String) : Prop :=
  (anchor path.toList).1 = (anchor other.toList).1 ∧ names path = names other

instance (path other : String) : Decidable (Same path other) :=
  inferInstanceAs (Decidable (_ ∧ _))

theorem Same.refl (path : String) : Same path path :=
  ⟨rfl, rfl⟩

theorem Same.symm {path other : String} (h : Same path other) : Same other path :=
  ⟨h.1.symm, h.2.symm⟩

theorem Same.trans {path other third : String} (h : Same path other) (h' : Same other third) :
    Same path third :=
  ⟨h.1.trans h'.1, h.2.trans h'.2⟩

/-- No part of the anchor is significant. -/
theorem names_eq_filter_split (path : String) :
    names path = (Text.split '/' path.toList).filter isSignificant := by
  rw [names]
  generalize path.toList = cs
  fun_cases anchor cs with
  | case1 body =>
      rw [Text.split_cons, if_pos rfl]
      rfl
  | case2 => rfl
  | case3 body =>
      rw [split_point_slash, Text.split_cons, if_pos rfl]
      rfl
  | case4 => rfl

/-- A text starts with an empty part exactly if its anchor is a slash. -/
theorem head?_split_eq_nil_iff {cs : List Char} (h : cs ≠ []) :
    (Text.split '/' cs).head? = some [] ↔ (anchor cs).1 = ['/'] := by
  have hText := Text.join_split '/' cs
  fun_cases anchor cs with
  | case1 body =>
      rw [Text.split_cons, if_pos rfl]
      exact iff_of_true rfl rfl
  | case2 => decide
  | case3 body =>
      rw [split_point_slash]
      exact iff_of_false (by simp) (by simp)
  | case4 body hSlash =>
      obtain ⟨first, rest, hParts⟩ := Text.exists_split '/' cs
      rw [hParts] at hText ⊢
      refine iff_of_false ?_ (by simp)
      intro hFirst
      cases hFirst
      cases rest with
      | nil => exact h hText.symm
      | cons next rest => exact hSlash _ hText.symm

theorem filter_significant (ps : List (List Char)) :
    (significant ps).filter isSignificant = ps.filter isSignificant := by
  have hDropped : (ps.rtakeWhile (!isSignificant ·)).filter isSignificant = [] := by
    rw [List.filter_eq_nil_iff]
    intro part hMem
    simpa using List.mem_rtakeWhile_imp hMem
  calc (significant ps).filter isSignificant
      = (ps.rdropWhile (!isSignificant ·) ++ ps.rtakeWhile (!isSignificant ·)).filter
          isSignificant := by rw [List.filter_append, hDropped, List.append_nil]; rfl
    _ = ps.filter isSignificant := by rw [List.rdropWhile_append_rtakeWhile]

theorem significant_eq (ps : List (List Char)) :
    significant ps = ps.rdropWhile (!isSignificant ·) := rfl

/-- What is left of parts is empty or ends with a significant one. -/
theorem significant_last {ps : List (List Char)} {part : List Char}
    (h : (significant ps).getLast? = some part) : isSignificant part = true := by
  rw [significant_eq] at h
  obtain ⟨front, hFront⟩ := List.getLast?_eq_some_iff.1 h
  have hSome : ps.rdropWhile (!isSignificant ·) ≠ [] := by simp [hFront]
  have hLast := List.rdropWhile_last_not (!isSignificant ·) ps hSome
  simpa [hFront] using hLast

theorem significant_begins (ps : List (List Char)) : significant ps <+: ps :=
  List.rdropWhile_prefix _ ps

theorem names_eq (path : String) : names path = (parts path).filter isSignificant :=
  (filter_significant _).symm

/-- A path with a file name has it as its last part. -/
theorem parts_of_fileName? {path name : String} (h : fileName? path = some name) :
    ∃ above, parts path = above ++ [name.toList] ∧ isSignificant name.toList = true ∧
      '/' ∉ name.toList ∧ name.toList ≠ ['.', '.'] := by
  rw [fileName?] at h
  cases hLast : (parts path).getLast? with
  | none =>
      rw [hLast] at h
      cases h
  | some part =>
      rw [hLast] at h
      by_cases hUp : part = ['.', '.']
      · simp [hUp] at h
      · simp only [if_neg hUp, Option.some.injEq] at h
        have hPart : part = name.toList := by rw [← h, String.toList_ofList]
        rw [hPart] at hLast hUp
        have hMem := List.mem_of_getLast? hLast
        obtain ⟨above, hAbove⟩ := List.getLast?_eq_some_iff.1 hLast
        exact ⟨above, hAbove, significant_last hLast,
          Text.not_mem_of_mem_split ((significant_begins _).subset hMem), hUp⟩

theorem fileName?_ne {path name : String} (h : fileName? path = some name) :
    name ≠ "" ∧ name ≠ "." ∧ name ≠ ".." := by
  obtain ⟨above, -, hSignificant, -, hUp⟩ := parts_of_fileName? h
  refine ⟨?_, ?_, ?_⟩
  · rintro rfl
    cases hSignificant
  · rintro rfl
    cases hSignificant
  · rintro rfl
    exact hUp rfl

/-- The last part of a text, if it is significant, does not belong to the anchor. -/
theorem getLast?_split_anchor {cs part : List Char}
    (hLast : (Text.split '/' cs).getLast? = some part) (hPart : isSignificant part = true) :
    (Text.split '/' (anchor cs).2).getLast? = some part := by
  fun_cases anchor cs with
  | case1 body =>
      obtain ⟨first, rest, hParts⟩ := Text.exists_split '/' body
      rw [Text.split_cons, if_pos rfl, hParts, List.getLast?_cons_cons] at hLast
      rwa [hParts]
  | case2 =>
      cases hLast
      cases hPart
  | case3 body =>
      obtain ⟨first, rest, hParts⟩ := Text.exists_split '/' body
      rw [split_point_slash, hParts, List.getLast?_cons_cons] at hLast
      rwa [Text.split_cons, if_pos rfl, hParts, List.getLast?_cons_cons]
  | case4 => exact hLast

/-- A path that ends in a significant part has it as its file name, if it has one. -/
theorem fileName?_of_getLast? {path name : String} {part : List Char}
    (hName : fileName? path = some name)
    (hLast : (Text.split '/' path.toList).getLast? = some part)
    (hPart : isSignificant part = true) : name.toList = part := by
  obtain ⟨front, hFront⟩ := List.getLast?_eq_some_iff.1 (getLast?_split_anchor hLast hPart)
  obtain ⟨above, hParts, -⟩ := parts_of_fileName? hName
  rw [parts, hFront, significant_eq, List.rdropWhile_concat_neg _ _ _ (by simp [hPart])] at hParts
  have hLasts : [part] = [name.toList] := (List.append_inj' hParts rfl).2
  exact (List.singleton_inj.1 hLasts).symm

/-- A path inside a directory stands behind a slash, which may be the directory's own, unless the
directory is empty. -/
theorem join_cases (directory : String) {path : String} (hHead : path.toList.head? ≠ some '/') :
    directory = "" ∧ join directory path = path ∨
      ∃ front, (join directory path).toList = front ++ '/' :: path.toList ∧
        (directory.toList = front ∧ front ≠ [] ∨ directory.toList = front ++ ['/']) := by
  by_cases hEmpty : directory = ""
  · exact Or.inl ⟨hEmpty, by simp [join, hEmpty]⟩
  · right
    by_cases hSlash : directory.toList.getLast? = some '/'
    · obtain ⟨front, hFront⟩ := List.getLast?_eq_some_iff.1 hSlash
      have hJoin : join directory path = directory ++ path := by simp [join, hHead, hEmpty, hSlash]
      exact ⟨front, by simp [hJoin, hFront], Or.inr hFront⟩
    · have hJoin : join directory path = directory ++ "/" ++ path := by
        simp [join, hHead, hEmpty, hSlash]
      exact ⟨directory.toList, by simp [hJoin], Or.inl ⟨rfl, by simpa using hEmpty⟩⟩

/-- A text that starts with a significant part does not start with a slash. -/
theorem head?_ne_slash {cs first : List Char} {rest : List (List Char)}
    (hParts : Text.split '/' cs = first :: rest) (hFirst : isSignificant first = true) :
    cs.head? ≠ some '/' := by
  intro hHead
  obtain ⟨body, rfl⟩ := List.head?_eq_some_iff.1 hHead
  rw [Text.split_cons, if_pos rfl] at hParts
  cases hParts
  cases hFirst

/-- A path inside a directory has the anchor of the directory, and the names of both. -/
theorem names_join (directory : String) {path : String} {first : List Char}
    {rest : List (List Char)} (hParts : Text.split '/' path.toList = first :: rest)
    (hFirst : isSignificant first = true) :
    (anchor (join directory path).toList).1 = (anchor directory.toList).1 ∧
      names (join directory path) =
        names directory ++ (Text.split '/' path.toList).filter isSignificant := by
  rw [names, names]
  rcases join_cases directory (head?_ne_slash hParts hFirst) with
    ⟨rfl, hJoin⟩ | ⟨front, hText, ⟨hDirectory, hSome⟩ | hDirectory⟩
  · rw [hJoin, anchor_eq_of_split hParts hFirst]
    exact ⟨rfl, rfl⟩
  · rw [hText, hDirectory, anchor_append_slash hSome, Text.split_append_cons, List.filter_append]
    exact ⟨rfl, rfl⟩
  · rw [hText, hDirectory]
    cases front with
    | nil => exact ⟨rfl, rfl⟩
    | cons c front =>
        have hSome : c :: front ≠ [] := List.cons_ne_nil _ _
        rw [anchor_append_slash hSome, anchor_append_slash hSome, Text.split_append_cons,
          Text.split_append_cons, List.filter_append, List.filter_append]
        exact ⟨rfl, by simp [isSignificant]⟩

/-- A path inside a directory ends in the path's last part. -/
theorem getLast?_split_join (directory path : String) :
    (Text.split '/' (join directory path).toList).getLast? =
      (Text.split '/' path.toList).getLast? := by
  rw [join]
  split
  · rfl
  · obtain ⟨first, rest, hParts⟩ := Text.exists_split '/' path.toList
    have hBehind (front : List Char) : (Text.split '/' (front ++ '/' :: path.toList)).getLast? =
        (Text.split '/' path.toList).getLast? := by
      rw [Text.split_append_cons, List.getLast?_append_of_ne_nil _ (by simp [hParts])]
    split
    · rename_i hSlash
      obtain ⟨front, hFront⟩ := List.getLast?_eq_some_iff.1 hSlash
      rw [String.toList_append, hFront, List.append_assoc]
      exact hBehind front
    · rw [String.toList_append, String.toList_append, List.append_assoc]
      exact hBehind directory.toList

theorem parent?_of_parts {path : String} {above : List (List Char)} {last : List Char}
    (h : parts path = above ++ [last]) :
    parent? path = some (String.ofList
      ((anchor path.toList).1 ++ Text.join ['/'] (significant above))) := by
  rw [parent?, h]
  cases above with
  | nil => rfl
  | cons first above =>
      simp only [List.cons_append]
      rw [← List.cons_append, List.dropLast_concat]

/-- The first parts of a path have the path's anchor. -/
theorem anchor_join_parts {cs : List Char} {kept : List (List Char)}
    (hKept : kept <+: Text.split '/' (anchor cs).2)
    (hLast : ∀ part, kept.getLast? = some part → isSignificant part = true) :
    anchor ((anchor cs).1 ++ Text.join ['/'] kept) =
      ((anchor cs).1, Text.join ['/'] kept) := by
  cases kept with
  | nil => fun_cases anchor cs <;> rfl
  | cons first kept =>
      -- An insignificant part is not the last one, and no text without an anchor starts with it.
      have hMore : isSignificant first = false → kept ≠ [] := by
        rintro hFirst rfl
        have hLast := hLast first rfl
        rw [hFirst] at hLast
        cases hLast
      revert hKept
      fun_cases anchor cs with
      | case1 body => exact fun _ => rfl
      | case2 =>
          intro hKept
          obtain ⟨rfl, hRest⟩ := List.cons_prefix_cons.1 hKept
          exact absurd (List.prefix_nil.1 hRest) (hMore rfl)
      | case3 body =>
          intro hKept
          rw [Text.split_cons, if_pos rfl] at hKept
          obtain ⟨rfl, hRest⟩ := List.cons_prefix_cons.1 hKept
          obtain ⟨next, kept, rfl⟩ := List.exists_cons_of_ne_nil (hMore rfl)
          rfl
      | case4 body hSlash hPoint hPointSlash =>
          intro hKept
          obtain ⟨part, rest, hParts⟩ := Text.exists_split '/' cs
          have hSlashFree : ∀ part ∈ first :: kept, '/' ∉ part :=
            fun part hMem => Text.not_mem_of_mem_split (hKept.subset hMem)
          rw [hParts] at hKept
          obtain ⟨rfl, hRest⟩ := List.cons_prefix_cons.1 hKept
          have hFirst : isSignificant first = true := by
            by_contra hIdle
            obtain ⟨next, kept, rfl⟩ :=
              List.exists_cons_of_ne_nil (hMore (Bool.eq_false_iff.2 hIdle))
            obtain ⟨more, rfl⟩ := hRest
            exact hIdle (isSignificant_first hSlash hPointSlash hParts)
          exact anchor_eq_of_split (Text.split_join (List.cons_ne_nil _ _) hSlashFree) hFirst

section Parent

variable {path : String} {above : List (List Char)} {last : List Char}

/-- The directory of a path has the path's anchor, and behind it the parts above the last one. -/
theorem anchor_parent (h : parts path = above ++ [last]) :
    anchor ((parent? path).getD "").toList =
      ((anchor path.toList).1, Text.join ['/'] (significant above)) := by
  have hAbove : above <+: parts path := h ▸ List.prefix_append above _
  have hKept := (significant_begins above).trans (hAbove.trans (significant_begins _))
  rw [parent?_of_parts h, Option.getD_some, String.toList_ofList]
  exact anchor_join_parts hKept fun part => significant_last

theorem parts_parent (h : parts path = above ++ [last]) :
    parts ((parent? path).getD "") = significant above := by
  have hAbove : above <+: parts path := h ▸ List.prefix_append above _
  have hKept := (significant_begins above).trans (hAbove.trans (significant_begins _))
  have hSlash : ∀ part ∈ significant above, '/' ∉ part :=
    fun part hMem => Text.not_mem_of_mem_split (hKept.subset hMem)
  rw [parts, anchor_parent h]
  cases hParts : significant above with
  | nil => rfl
  | cons first kept =>
      rw [hParts] at hSlash
      rw [Text.split_join (List.cons_ne_nil _ _) hSlash, ← hParts]
      exact List.rdropWhile_idempotent _ above

end Parent

/-- A path has the anchor of its directory, and the names of its directory and its file. -/
theorem names_parent {path name : String} (h : fileName? path = some name) :
    (anchor ((parent? path).getD "").toList).1 = (anchor path.toList).1 ∧
      names path = names ((parent? path).getD "") ++ [name.toList] := by
  obtain ⟨above, hParts, hName, -, -⟩ := parts_of_fileName? h
  refine ⟨by rw [anchor_parent hParts], ?_⟩
  rw [names_eq, names_eq, parts_parent hParts, filter_significant, hParts, List.filter_append,
    List.filter_singleton, hName, cond_true]

/-- Two texts for one path have the same file name. -/
theorem fileName?_of_same {path other name : String} (h : Same path other)
    (hName : fileName? path = some name) : fileName? other = some name := by
  obtain ⟨_, _, _, _, hUp⟩ := parts_of_fileName? hName
  have hNames : (parts other).filter isSignificant =
      names ((parent? path).getD "") ++ [name.toList] := by
    rw [← names_eq, ← h.2, (names_parent hName).2]
  cases hLast : (parts other).getLast? with
  | none =>
      rw [List.getLast?_eq_none_iff] at hLast
      simp [hLast] at hNames
  | some last =>
      obtain ⟨front, hFront⟩ := List.getLast?_eq_some_iff.1 hLast
      rw [hFront, List.filter_append, List.filter_singleton, significant_last hLast,
        cond_true] at hNames
      obtain rfl : last = name.toList := List.singleton_inj.1 (List.append_inj' hNames rfl).2
      rw [fileName?, hLast]
      simp only [if_neg hUp, String.ofList_toList]

/-! ## Plain names inside a directory -/

section PlainName

variable {name : String}

/-- A plain name inside a directory stands behind the directory's parts. -/
theorem parts_join (directory : String) (hName : isSignificant name.toList = true)
    (hSlash : '/' ∉ name.toList) :
    (anchor (join directory name).toList).1 = (anchor directory.toList).1 ∧
      ∃ above, parts (join directory name) = above ++ [name.toList] ∧
        significant above = parts directory := by
  have hSplit := Text.split_of_not_mem hSlash
  have hLast (above : List (List Char)) :
      significant (above ++ [name.toList]) = above ++ [name.toList] :=
    List.rdropWhile_concat_neg _ _ _ (by simp [hName])
  rw [parts, parts]
  rcases join_cases directory (head?_ne_slash hSplit hName) with
    ⟨rfl, hJoin⟩ | ⟨front, hText, ⟨hDirectory, hSome⟩ | hDirectory⟩
  · rw [hJoin, anchor_eq_of_split hSplit hName, hSplit]
    exact ⟨rfl, [], hLast [], rfl⟩
  · rw [hText, hDirectory, anchor_append_slash hSome, Text.split_append_cons, hSplit, hLast]
    exact ⟨rfl, _, rfl, rfl⟩
  · rw [hText, hDirectory]
    cases front with
    | nil =>
        show _ ∧ ∃ above, significant (Text.split '/' name.toList) = _ ∧ _
        rw [hSplit]
        exact ⟨rfl, [], hLast [], rfl⟩
    | cons c front =>
        have hSome : c :: front ≠ [] := List.cons_ne_nil _ _
        rw [anchor_append_slash hSome, anchor_append_slash hSome, Text.split_append_cons,
          Text.split_append_cons, hSplit, hLast]
        refine ⟨rfl, _, rfl, ?_⟩
        exact (List.rdropWhile_concat_pos _ _ _ rfl).symm

/-- A plain name inside a directory is the file name there. -/
theorem fileName?_join (directory : String) (hName : isSignificant name.toList = true)
    (hSlash : '/' ∉ name.toList) (hUp : name.toList ≠ ['.', '.']) :
    fileName? (join directory name) = some name := by
  obtain ⟨-, above, hParts, -⟩ := parts_join directory hName hSlash
  rw [fileName?, hParts, List.getLast?_concat]
  simp only [if_neg hUp, String.ofList_toList]

/-- A file name is its own file name. -/
theorem fileName?_fileName {path : String} (h : fileName? path = some name) :
    fileName? name = some name := by
  obtain ⟨-, -, hName, hSlash, hUp⟩ := parts_of_fileName? h
  have hJoin : join "" name = name := by simp [join]
  have hSelf := fileName?_join "" hName hSlash hUp
  rwa [hJoin] at hSelf

/-- A plain name beside a file has the same directory as the file. -/
theorem parent?_join {path file : String} (hFile : fileName? path = some file)
    (hName : isSignificant name.toList = true) (hSlash : '/' ∉ name.toList) :
    parent? (join ((parent? path).getD "") name) = parent? path := by
  obtain ⟨upper, hUpper, -⟩ := parts_of_fileName? hFile
  obtain ⟨hAnchor, above, hParts, hAbove⟩ := parts_join ((parent? path).getD "") hName hSlash
  rw [parent?_of_parts hParts, hAnchor, hAbove, anchor_parent hUpper, parts_parent hUpper,
    parent?_of_parts hUpper]

end PlainName

/-- A text behind another adds no names exactly if it has none and a slash is in front of it. -/
theorem filter_split_append_iff {cs ds : List Char} (hCs : cs ≠ [])
    {c : Char} {first : List Char} {rest : List (List Char)}
    (hDs : Text.split '/' ds = (c :: first) :: rest) :
    (Text.split '/' cs).filter isSignificant = (Text.split '/' (cs ++ ds)).filter isSignificant ↔
      cs.getLast? = some '/' ∧ ∀ part ∈ Text.split '/' ds, isSignificant part = false := by
  obtain ⟨last, hLast, hText⟩ := Text.exists_last_part '/' cs
  obtain ⟨front, hFront, hBehind⟩ : ∃ front, Text.split '/' cs = front ++ [last] ∧
      Text.split '/' (cs ++ ds) = front ++ (last ++ c :: first) :: rest := by
    rcases hText with rfl | ⟨front, rfl⟩
    · exact ⟨[], Text.split_of_not_mem hLast, Text.split_append hLast hDs⟩
    · refine ⟨Text.split '/' front, ?_, ?_⟩
      · rw [Text.split_append_cons, Text.split_of_not_mem hLast]
      · rw [List.append_assoc, List.cons_append, Text.split_append_cons,
          Text.split_append hLast hDs]
  rw [hFront, hBehind, List.filter_append, List.filter_append, List.append_cancel_left_eq]
  by_cases hEmpty : last = []
  · have hSlash : cs.getLast? = some '/' := by
      rcases hText with hWhole | ⟨front, hWhole⟩
      · exact absurd (hWhole.trans hEmpty) hCs
      · rw [hWhole, hEmpty, List.getLast?_concat]
    rw [hEmpty, List.nil_append, ← hDs, and_iff_right hSlash]
    show [] = _ ↔ _
    rw [eq_comm, List.filter_eq_nil_iff]
    simp only [Bool.not_eq_true]
  · have hSlash : cs.getLast? ≠ some '/' := by
      intro hSlash
      apply hLast
      apply List.mem_of_getLast?
      rcases hText with rfl | ⟨front, rfl⟩
      · exact hSlash
      · rwa [List.append_cons, List.getLast?_append_of_ne_nil _ hEmpty] at hSlash
    rw [List.filter_cons_of_pos (isSignificant_append hEmpty c first)]
    constructor
    · intro hNames
      have hOnly := List.filter_sublist.subset (hNames ▸ List.mem_cons_self)
      simp at hOnly
    · exact fun h => absurd h.1 hSlash

end Path

end ReversePolish
