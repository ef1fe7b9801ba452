import ForexForest.JavaText

/-!
# Reading a text to its end

`readLines` is the loop `while ((line = readLine()) != null)` over a text: a line
ends at a line feed, at a carriage return, at both together, or at the end of the
text if there is something before it.

* `readLines_append` — a line and its terminator are read first;
* `readLines_written` — a text written line by line is read back;
* `oneLine_of_mem_readLines` — no line that is read holds a line break.
-/

namespace Java

/-- The lines still to be returned, when `cur` has been read of the current one;
`skipLF` says that a line feed would belong to the carriage return before it. -/
def linesFrom (cur : JString) (skipLF : Bool) : JString → List JString
  | [] => if cur = [] then [] else [cur]
  | c :: rest =>
      if skipLF = true ∧ c = 10 then linesFrom cur false rest
      else if c = 10 then cur :: linesFrom [] false rest
      else if c = 13 then cur :: linesFrom [] true rest
      else linesFrom (cur ++ [c]) false rest

/-- The lines of a text. -/
def readLines (text : JString) : List JString := linesFrom [] false text

/-- Up to its line end a text on one line is collected character by character. -/
theorem linesFrom_append {s : JString} (hs : OneLine s) (cur rest : JString) :
    linesFrom cur false (s ++ rest) = linesFrom (cur ++ s) false rest := by
  induction s generalizing cur with
  | nil => rw [List.nil_append, List.append_nil]
  | cons c s ih =>
      have hbreak : isLineBreak c = false := hs c List.mem_cons_self
      simp only [isLineBreak, Bool.or_eq_false_iff, decide_eq_false_iff_not] at hbreak
      rw [List.cons_append, linesFrom, if_neg (by simp), if_neg hbreak.1, if_neg hbreak.2,
        ih fun d hd => hs d (List.mem_cons_of_mem c hd), List.append_assoc, List.singleton_append]

/-- A line and its terminator are read first. -/
theorem readLines_append {s : JString} (hs : OneLine s) (rest : JString) :
    readLines (s ++ lit "\n" ++ rest) = s :: readLines rest := by
  have hfeed : lit "\n" ++ rest = 10 :: rest := rfl
  rw [readLines, List.append_assoc, hfeed, linesFrom_append hs, linesFrom, if_neg (by simp),
    if_pos rfl, List.nil_append, readLines]

/-- A text written line by line is read back. -/
theorem readLines_written {lines : List JString} (hlines : ∀ line ∈ lines, OneLine line) :
    readLines (lines.map fun line => line ++ lit "\n").flatten = lines := by
  induction lines with
  | nil => rfl
  | cons line lines ih =>
      rw [List.map_cons, List.flatten_cons, readLines_append (hlines line List.mem_cons_self),
        ih fun other hother => hlines other (List.mem_cons_of_mem line hother)]

theorem oneLine_nil : OneLine ([] : JString) := fun _ hc => absurd hc List.not_mem_nil

/-- Lines are cut at every line break, so none of them holds one, provided that the
part collected before has none. -/
theorem oneLine_of_mem_linesFrom {cur text : JString} {skipLF : Bool} (hcur : OneLine cur) :
    ∀ line ∈ linesFrom cur skipLF text, OneLine line := by
  fun_induction linesFrom cur skipLF text with
  | case1 => simp
  | case2 => simpa using hcur
  | case3 cur skipLF c rest hskip ih => exact ih hcur
  | case4 cur skipLF rest hskip ih => exact List.forall_mem_cons.mpr ⟨hcur, ih oneLine_nil⟩
  | case5 cur skipLF rest hskip hfeed ih => exact List.forall_mem_cons.mpr ⟨hcur, ih oneLine_nil⟩
  | case6 cur skipLF c rest hskip hfeed hreturn ih =>
      refine ih (hcur.append ?_)
      intro d hd
      rw [List.mem_singleton.mp hd]
      simp [isLineBreak, hfeed, hreturn]

/-- No line that is read holds a line break. -/
theorem oneLine_of_mem_readLines {text line : JString} (h : line ∈ readLines text) :
    OneLine line :=
  oneLine_of_mem_linesFrom oneLine_nil line h

end Java
