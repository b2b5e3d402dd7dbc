/-
  CompilerRemarks.Proofs.Remark.Documents

  The filter of a record against its batch definition: cut the lines of the
  record after each end line, drop what is left over, and keep the remark of
  each document that is about the file.

  The state of the filter after some lines is not defined by running it:
  `Filter.having` computes it from the lines alone, out of the documents that
  ended among them and the lines of the one that did not. One line takes this
  state to the state of the lines with it (`Filter.push_having`), so a document
  leaves nothing behind in the next one, whether it was kept or not.
-/
import CompilerRemarks.Proofs.Text.Cut
import CompilerRemarks.Remark.Stream

namespace CompilerRemarks.Remark

/-! ## Cutting a record -/

/-- The documents of a record: its lines cut after each end line. -/
def documents (lines : List String) : List (List String) :=
  (lines.splitOn terminator).dropLast.map (· ++ [terminator])

/-- The lines of a record after its last end line. -/
def unfinished (lines : List String) : List String :=
  (lines.splitOn terminator).getLast (List.splitOn_ne_nil terminator lines)

/-- A document ends with the first end line it has. -/
def IsDocument (doc : List String) : Prop :=
  ∃ body, terminator ∉ body ∧ doc = body ++ [terminator]

theorem documents_append_cons (xs ys : List String) :
    documents (xs ++ terminator :: ys) =
      documents xs ++ (unfinished xs ++ [terminator]) :: documents ys :=
  Text.cut_append_cons xs ys

theorem unfinished_append_cons (xs ys : List String) :
    unfinished (xs ++ terminator :: ys) = unfinished ys :=
  Text.leftover_append_cons xs ys

theorem documents_of_not_mem {xs : List String} (h : terminator ∉ xs) : documents xs = [] :=
  Text.cut_of_not_mem h

theorem unfinished_of_not_mem {xs : List String} (h : terminator ∉ xs) : unfinished xs = xs :=
  Text.leftover_of_not_mem h

theorem documents_cons {xs : List String} (h : terminator ∉ xs) (ys : List String) :
    documents (xs ++ terminator :: ys) = (xs ++ [terminator]) :: documents ys :=
  Text.cut_cons h ys

/-- Cutting a record loses no line and adds none. -/
theorem IsDocument.documents_eq {doc : List String} (h : IsDocument doc) :
    documents doc = [doc] := by
  obtain ⟨body, hbody, rfl⟩ := h
  rw [documents_cons hbody, documents_of_not_mem List.not_mem_nil]

theorem flatten_documents_append_unfinished (lines : List String) :
    (documents lines).flatten ++ unfinished lines = lines :=
  Text.flatten_cut_append_leftover lines

theorem isDocument_of_mem_documents {lines doc : List String} (h : doc ∈ documents lines) :
    IsDocument doc :=
  Text.exists_of_mem_cut h

theorem terminator_notMem_unfinished (lines : List String) : terminator ∉ unfinished lines :=
  Text.notMem_leftover lines

/-- Lines that end no document leave the documents as they are. -/
theorem documents_append_of_not_mem (xs : List String) {ys : List String} (h : terminator ∉ ys) :
    documents (xs ++ ys) = documents xs ∧ unfinished (xs ++ ys) = unfinished xs ++ ys := by
  -- no end line follows the last one
  have hnot : terminator ∉ unfinished xs ++ ys := by
    rw [List.mem_append]
    exact not_or.mpr ⟨terminator_notMem_unfinished xs, h⟩
  have hdocs : documents (xs ++ ys) = documents xs ++ documents (unfinished xs ++ ys) :=
    Text.cut_append xs ys
  have hopen : unfinished (xs ++ ys) = unfinished (unfinished xs ++ ys) :=
    Text.leftover_append xs ys
  rw [hdocs, hopen, documents_of_not_mem hnot, unfinished_of_not_mem hnot, List.append_nil]
  exact ⟨rfl, rfl⟩

/-! ## Documents about a file -/

/-- A document is about a file if it has a location line, and each location
    line it has names the file. -/
def IsAbout (relevant : Path) (doc : List String) : Prop :=
  (∃ line ∈ doc, isLocationLine line) ∧
    ∀ line ∈ doc, isLocationLine line → (extractFile? line).any (sameFile ⟨·⟩ relevant)

instance (relevant : Path) (doc : List String) : Decidable (IsAbout relevant doc) :=
  inferInstanceAs (Decidable (_ ∧ _))

/-- The remark of a document that is about a file. -/
def surfaced? (relevant : Path) (doc : List String) : Option Remark :=
  if IsAbout relevant doc then decode? doc else none

theorem surfaced?_of_isAbout {relevant : Path} {doc : List String} (h : IsAbout relevant doc) :
    surfaced? relevant doc = decode? doc :=
  if_pos h

theorem surfaced?_eq_none {relevant : Path} {doc : List String} (h : ¬ IsAbout relevant doc) :
    surfaced? relevant doc = none :=
  if_neg h

theorem namesFile_eq_any (relevant : Path) (line : String) :
    namesFile relevant line = (extractFile? line).any (sameFile ⟨·⟩ relevant) := by
  unfold namesFile
  cases extractFile? line <;> rfl

theorem terminator_not_location : isLocationLine terminator = false := by
  decide

namespace Filter

/-- Whether every location line among some lines names the file. -/
def allName (relevant : Path) (lines : List String) : Bool :=
  lines.all fun line => !isLocationLine line || namesFile relevant line

/-- The filter that has read some lines. -/
def having (relevant : Path) (seen : List String) : Filter :=
  ⟨relevant, unfinished seen, allName relevant (unfinished seen),
    !(unfinished seen).any isLocationLine, (documents seen).filterMap (surfaced? relevant)⟩

theorem isAbout_iff_flags (relevant : Path) (lines : List String) :
    IsAbout relevant (lines ++ [terminator]) ↔
      (allName relevant lines && !!lines.any isLocationLine) = true := by
  simp only [IsAbout, allName, List.mem_append, List.mem_singleton, Bool.and_eq_true,
    List.all_eq_true, Bool.or_eq_true, Bool.not_eq_true', Bool.not_not, List.any_eq_true,
    namesFile_eq_any]
  constructor
  · rintro ⟨⟨line, hmem, hloc⟩, hall⟩
    refine ⟨?_, ?_⟩
    · intro x hx
      cases hxl : isLocationLine x with
      | false => exact Or.inl rfl
      | true => exact Or.inr (hall x (Or.inl hx) hxl)
    -- the location line is not the end line
    · rcases hmem with hmem | rfl
      · exact ⟨line, hmem, hloc⟩
      · rw [terminator_not_location] at hloc
        exact absurd hloc Bool.false_ne_true
  · rintro ⟨hall, line, hmem, hloc⟩
    refine ⟨⟨line, Or.inl hmem, hloc⟩, ?_⟩
    rintro x (hx | rfl) hxl
    · exact (hall x hx).resolve_left (by simp [hxl])
    · rw [terminator_not_location] at hxl
      exact absurd hxl Bool.false_ne_true

theorem note_having (relevant : Path) (seen : List String) {line : String}
    (h : line ≠ terminator) :
    (having relevant seen).note line = having relevant (seen ++ [line]) := by
  have hline : terminator ∉ [line] := by
    rw [List.mem_singleton]
    exact Ne.symm h
  obtain ⟨hdocs, hopen⟩ := documents_append_of_not_mem seen hline
  simp only [having, note, hdocs, hopen, allName, List.all_append, List.any_append]
  cases hloc : isLocationLine line <;> simp [hloc]

/-- The end line keeps the document that it ends if that is about the file,
    and leaves no other trace of it. -/
theorem push_terminator_having (relevant : Path) (seen : List String) :
    (having relevant seen).push terminator =
      (having relevant (seen ++ [terminator]),
        surfaced? relevant (unfinished seen ++ [terminator])) := by
  have hnote : (having relevant seen).note terminator =
      { having relevant seen with current := unfinished seen ++ [terminator] } := by
    simp [note, having, terminator_not_location]
  have hdocs : documents (seen ++ [terminator]) =
      documents seen ++ [unfinished seen ++ [terminator]] := by
    rw [documents_append_cons, documents_of_not_mem List.not_mem_nil]
  have hopen : unfinished (seen ++ [terminator]) = [] := by
    rw [unfinished_append_cons, unfinished_of_not_mem List.not_mem_nil]
  -- the two flags say whether the document that ends here is about the file
  have hfound : (if ((having relevant seen).isRelevant && !(having relevant seen).unplaced) = true
        then decode? (unfinished seen ++ [terminator]) else none) =
      surfaced? relevant (unfinished seen ++ [terminator]) :=
    ite_congr (propext (isAbout_iff_flags relevant (unfinished seen)).symm)
      (fun _ => rfl) (fun _ => rfl)
  rw [push, hnote, beq_self_eq_true, if_pos rfl]
  simp only [close]
  rw [hfound, having, having, hdocs, hopen, List.filterMap_append, List.filterMap_cons]
  cases surfaced? relevant (unfinished seen ++ [terminator]) <;> rfl

/-- A line takes the state of the lines before it to the state of the lines
    with it, and completes a remark only where it ends a document. -/
theorem push_having (relevant : Path) (seen : List String) (line : String) :
    (having relevant seen).push line =
      (having relevant (seen ++ [line]),
        if line = terminator then surfaced? relevant (unfinished seen ++ [terminator])
        else none) := by
  by_cases h : line = terminator
  · subst h
    rw [push_terminator_having, if_pos rfl]
  · have hbeq : (line == terminator) = false := beq_false_of_ne h
    rw [push, note_having relevant seen h, hbeq, if_neg Bool.false_ne_true, if_neg h]

/-- What a filter reports line by line. -/
def emissions (f : Filter) : List String → List (Option Remark)
  | [] => []
  | line :: rest => (f.push line).2 :: emissions (f.push line).1 rest

theorem pushAll_having (relevant : Path) (seen lines : List String) :
    (having relevant seen).pushAll lines = having relevant (seen ++ lines) := by
  induction lines generalizing seen with
  | nil => rw [List.append_nil]; rfl
  | cons line rest ih =>
    have hstep := congrArg Prod.fst (push_having relevant seen line)
    rw [pushAll, List.foldl_cons, hstep]
    exact (ih (seen ++ [line])).trans (by rw [List.append_assoc, List.singleton_append])

theorem new_eq_having (relevant : Path) : new relevant = having relevant [] := by
  have hdocs : documents [] = [] := documents_of_not_mem List.not_mem_nil
  have hopen : unfinished [] = [] := unfinished_of_not_mem List.not_mem_nil
  rw [having, hdocs, hopen]
  rfl

/-- The line at place `i` reports what the document that it ends surfaces. -/
theorem getElem?_emissions_having (relevant : Path) (seen lines : List String) (i : Nat) :
    ((having relevant seen).emissions lines)[i]? = lines[i]?.map fun line =>
      if line = terminator then
        surfaced? relevant (unfinished (seen ++ lines.take i) ++ [terminator])
      else none := by
  induction lines generalizing seen i with
  | nil => rfl
  | cons line rest ih =>
    rw [emissions, push_having]
    cases i with
    | zero => simp
    | succ i =>
      rw [List.getElem?_cons_succ, List.getElem?_cons_succ, ih, List.take_succ_cons,
        List.append_assoc, List.singleton_append]

theorem note_remarks (f : Filter) (line : String) : (f.note line).remarks = f.remarks := by
  unfold note
  split <;> rfl

/-- The remarks of a filter are those that it reported. -/
theorem remarks_pushAll (f : Filter) (lines : List String) :
    (f.pushAll lines).remarks = f.remarks ++ (f.emissions lines).filterMap id := by
  induction lines generalizing f with
  | nil => simp [emissions, pushAll]
  | cons line rest ih =>
    -- a line adds to the remarks just what it reports
    have hkept : (f.push line).1.remarks = f.remarks ++ (f.push line).2.toList := by
      rw [push]
      split
      · simp only [close, note_remarks]
      · simp [note_remarks]
    have hrest := ih (f.push line).1
    rw [hkept, List.append_assoc] at hrest
    rw [emissions, pushAll, List.foldl_cons]
    refine hrest.trans ?_
    cases (f.push line).2 <;> rfl

end Filter

/-! ## The filter and the batch -/

theorem filterLines_eq_filterMap (relevant : Path) (lines : List String) :
    filterLines relevant lines = (documents lines).filterMap (surfaced? relevant) := by
  rw [filterLines, Filter.new_eq_having, Filter.pushAll_having, List.nil_append]
  rfl

theorem filterLines_of_isDocument (relevant : Path) {doc : List String} (hdoc : IsDocument doc) :
    filterLines relevant doc = (surfaced? relevant doc).toList := by
  rw [filterLines_eq_filterMap, hdoc.documents_eq, List.filterMap_cons]
  cases surfaced? relevant doc <;> rfl

/-- The filter keeps, in order, the remark of each document that is about the
    file; it reports each one at the line that ends its document, and what it
    has read before an end line has no influence on what comes after. -/
theorem filterLines_batch (relevant : Path) (lines : List String) :
    ((documents lines).flatten ++ unfinished lines = lines ∧
      (∀ doc ∈ documents lines, IsDocument doc) ∧ terminator ∉ unfinished lines) ∧
    filterLines relevant lines = (documents lines).filterMap (surfaced? relevant) ∧
    filterLines relevant lines = ((Filter.new relevant).emissions lines).filterMap id ∧
    (∀ i : Nat, ((Filter.new relevant).emissions lines)[i]? = lines[i]?.map fun line =>
      if line = terminator then
        surfaced? relevant (unfinished (lines.take i) ++ [terminator])
      else none) ∧
    ∀ more, filterLines relevant (lines ++ terminator :: more) =
      filterLines relevant (lines ++ [terminator]) ++ filterLines relevant more := by
  refine ⟨⟨?_, ?_, ?_⟩, ?_, ?_, ?_, ?_⟩
  · exact flatten_documents_append_unfinished lines
  · exact fun doc hdoc => isDocument_of_mem_documents hdoc
  · exact terminator_notMem_unfinished lines
  · exact filterLines_eq_filterMap relevant lines
  · exact Filter.remarks_pushAll (Filter.new relevant) lines
  · intro i
    rw [Filter.new_eq_having, Filter.getElem?_emissions_having, List.nil_append]
  · intro more
    have hnil : documents [] = [] := documents_of_not_mem List.not_mem_nil
    simp only [filterLines_eq_filterMap, documents_append_cons, hnil, List.filterMap_append,
      List.filterMap_cons, List.filterMap_nil]
    cases surfaced? relevant (unfinished lines ++ [terminator]) <;> simp

end CompilerRemarks.Remark
