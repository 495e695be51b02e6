import VolumeControl.Lib.Latest
import VolumeControl.Lib.Run
import VolumeControl.Usb.CdcInput

/-!
# The consumer of the lines

`received_data` is at once the line that is handed over and, when it is not
empty, the sign that there is one. `handle_cdc_input` puts every line there
without looking, so of the lines that one read completes only the last is
left, and an empty one takes away the line before it: `consumeReads_iff`.
-/

namespace VolumeControl

open Trace CString Latest

def cdcDataAvailable (s : Cdc) : Bool := s.receivedData[0] ≠ nul

/-- The line that has been copied to the caller's buffer. -/
def cdcGetLine (s : Cdc) : Vector Byte (inputMaxLen + 1) × Cdc :=
  (s.receivedData, { s with receivedData := s.receivedData.set 0 nul })

theorem cdcDataAvailable_cdcGetLine (s : Cdc) : cdcDataAvailable (cdcGetLine s).2 = false := by
  simp [cdcDataAvailable, cdcGetLine]

/-- Calls `cdc_get_line` as long as `cdc_data_available`. -/
def takeLines (s : Cdc) : List (Vector Byte (inputMaxLen + 1)) × Cdc :=
  if cdcDataAvailable s then
    let rest := takeLines (cdcGetLine s).2
    ((cdcGetLine s).1 :: rest.1, rest.2)
  else ([], s)
termination_by (cdcDataAvailable s).toNat
decreasing_by
  rename_i h
  rw [cdcDataAvailable_cdcGetLine, h]
  decide

/-- A `handle_cdc_input` for each read, and after each of them the consumer; the lines it gets. -/
def consumeReads (s : Cdc) : List (List Byte) → Option (List (List Byte))
  | [] => some []
  | inbuf :: reads => do
    let s ← handleCdcInput s inbuf
    let (buffers, s) := takeLines s
    let lines ← consumeReads s reads
    return buffers.map (text nul) ++ lines

/-! ## The lines of a stream -/

/-- A line without its carriage returns. -/
def content (line : List Byte) : List Byte := line.filter (· ≠ carriageReturn)

/-- The lines that a read completes, with what comes before it. -/
def readLines (stream inbuf : List Byte) : List (List Byte) :=
  completeLines (pendingLine stream ++ inbuf)

/-- The lines of the reads of a stream, read by read. -/
def linesOfReads (stream : List Byte) (reads : List (List Byte)) : List (List (List Byte)) :=
  outputs (· ++ ·) readLines stream reads

theorem completeLines_append (stream inbuf : List Byte) :
    completeLines (stream ++ inbuf) = completeLines stream ++ readLines stream inbuf := by
  simp [completeLines, readLines, pendingLine, Lines.split_append_eq stream inbuf]

theorem completeLines_flatten (stream : List Byte) (reads : List (List Byte)) :
    completeLines (stream ++ reads.flatten) =
      completeLines stream ++ (linesOfReads stream reads).flatten := by
  induction reads generalizing stream with
  | nil => simp [linesOfReads, outputs]
  | cons inbuf reads ih =>
    rw [List.flatten_cons, ← List.append_assoc, ih, completeLines_append, List.append_assoc]
    rfl

theorem flatten_linesOfReads (reads : List (List Byte)) :
    (linesOfReads [] reads).flatten = completeLines reads.flatten :=
  (completeLines_flatten [] reads).symm

theorem pendingLine_pendingLine_append (stream inbuf : List Byte) :
    pendingLine (pendingLine stream ++ inbuf) = pendingLine (stream ++ inbuf) := by
  simp [pendingLine, Lines.split_append_eq stream inbuf]

theorem readLines_newline (stream inbuf : List Byte) :
    readLines stream (inbuf ++ [newline]) =
      readLines stream inbuf ++ [pendingLine (stream ++ inbuf)] := by
  rw [readLines, ← List.append_assoc, completeLines_newline, pendingLine_pendingLine_append]
  rfl

theorem readLines_of_ne {c : Byte} (stream inbuf : List Byte) (hc : c ≠ newline) :
    readLines stream (inbuf ++ [c]) = readLines stream inbuf := by
  rw [readLines, ← List.append_assoc]
  exact (split_append _ (List.mem_singleton.not.2 hc.symm)).1

theorem lineText_eq_content {line : List Byte} (hnul : nul ∉ line)
    (hlen : (content line).length ≤ inputMaxLen) : lineText line = content line := by
  have hall : kept line = content line := List.take_of_length_le hlen
  rw [lineText, hall]
  refine List.takeWhile_eq_self_iff.2 fun c hc => ?_
  have hmem : c ∈ line := (List.mem_filter.1 hc).1
  simpa using fun heq : c = nul => hnul (heq ▸ hmem)

/-! ## The consumer -/

variable {s : Cdc} {stream : List Byte}

theorem cdcDataAvailable_iff : cdcDataAvailable s = true ↔ text nul s.receivedData ≠ [] := by
  rw [cdcDataAvailable, decide_eq_true_eq]
  exact text_eq_nil_iff.not.symm

/-- The consumer finds one line at most. -/
theorem takeLines_eq (s : Cdc) : takeLines s =
    if cdcDataAvailable s then ([s.receivedData], (cdcGetLine s).2) else ([], s) := by
  rw [takeLines]
  split_ifs
  · have hnone : takeLines (cdcGetLine s).2 = ([], (cdcGetLine s).2) := by
      rw [takeLines, cdcDataAvailable_cdcGetLine, if_neg Bool.false_ne_true]
    rw [hnone]
    rfl
  · rfl

/-- After a read the slot holds the last line it has completed. -/
theorem Assembles.handleCdcInput (h : Assembles s stream) (inbuf : List Byte) :
    ∃ s', handleCdcInput s inbuf = some s' ∧ Assembles s' (stream ++ inbuf) ∧
      text nul s'.receivedData =
        ((readLines stream inbuf).getLast?.map lineText).getD (text nul s.receivedData) := by
  induction inbuf using List.reverseRecOn with
  | nil =>
    have hnone : readLines stream [] = [] := by
      have happend := completeLines_append stream []
      rwa [List.append_nil, List.self_eq_append_right] at happend
    exact ⟨s, rfl, by simpa using h, by simp [hnone]⟩
  | append_singleton inbuf c ih =>
    obtain ⟨s₁, hs₁, h₁, hreceived₁⟩ := ih
    rw [VolumeControl.handleCdcInput] at hs₁
    rw [VolumeControl.handleCdcInput, List.foldlM_append, hs₁, ← List.append_assoc]
    by_cases hc : c = newline
    · subst hc
      obtain ⟨s₂, hs₂, h₂, hreceived₂, -⟩ := h₁.handleByte_newline
      refine ⟨s₂, by simpa using hs₂, h₂, ?_⟩
      rw [readLines_newline, List.getLast?_concat]
      exact hreceived₂
    · obtain ⟨s₂, hs₂, h₂, hreceived₂, -⟩ := h₁.handleByte_of_ne hc
      refine ⟨s₂, by simpa using hs₂, h₂, ?_⟩
      rw [readLines_of_ne _ _ hc, hreceived₂]
      exact hreceived₁

/-- The consumer takes the line in the slot, if it is not empty, and leaves the slot empty. -/
theorem Assembles.takeLines (h : Assembles s stream) :
    Assembles (takeLines s).2 stream ∧ text nul (VolumeControl.takeLines s).2.receivedData = [] ∧
      (VolumeControl.takeLines s).1.map (text nul) =
        [text nul s.receivedData].filter (· ≠ []) := by
  rw [takeLines_eq]
  by_cases havail : cdcDataAvailable s = true
  · rw [if_pos havail]
    refine ⟨⟨h.ind, h.buffer⟩, text_eq_nil_iff.2 (by simp [cdcGetLine]), ?_⟩
    simp [cdcDataAvailable_iff.1 havail]
  · have hempty : text nul s.receivedData = [] := by
      simpa [cdcDataAvailable_iff] using havail
    rw [if_neg havail]
    exact ⟨h, hempty, by simp [hempty]⟩

/-- **What the consumer gets** is the last line of each read, if it is not empty. -/
theorem Assembles.consumeReads (h : Assembles s stream) (hempty : text nul s.receivedData = [])
    (reads : List (List Byte)) : consumeReads s reads =
      some (taken (· ≠ []) ((linesOfReads stream reads).map (·.map lineText))) := by
  induction reads generalizing s stream with
  | nil => rfl
  | cons inbuf reads ih =>
    obtain ⟨s₁, hs₁, h₁, hreceived⟩ := h.handleCdcInput inbuf
    obtain ⟨h₂, hempty₂, htaken⟩ := h₁.takeLines
    have hlatest : (VolumeControl.takeLines s₁).1.map (text nul) =
        latest (· ≠ []) ((readLines stream inbuf).map lineText) := by
      rw [htaken, hreceived, hempty, latest, List.getLast?_map]
      cases (readLines stream inbuf).getLast? <;> simp
    rw [VolumeControl.consumeReads, hs₁]
    simp only [Option.bind_eq_bind, Option.bind_some, ih h₂ hempty₂, hlatest]
    rfl

theorem assembles_start : Assembles Cdc.start [] := reads_start.assembles

theorem mem_of_mem_completeLines {line : List Byte} {c : Byte} (hline : line ∈ completeLines stream)
    (hc : c ∈ line) : c ∈ stream := by
  rw [← Lines.join_split newline stream]
  exact List.mem_append_left _ (List.mem_flatMap.2 ⟨line, hline, List.mem_append_left _ hc⟩)

/-- **The consumer gets every line** exactly when no read completes another line after one that is
not empty. -/
theorem consumeReads_iff (reads : List (List Byte)) (hnul : nul ∉ reads.flatten)
    (hlen : ∀ line ∈ completeLines reads.flatten, (content line).length ≤ inputMaxLen) :
    consumeReads .start reads =
        some (((completeLines reads.flatten).map content).filter (· ≠ [])) ↔
      ∀ lines ∈ linesOfReads [] reads, ∀ line ∈ lines.dropLast, content line = [] := by
  have htext : (linesOfReads [] reads).map (·.map lineText) =
      (linesOfReads [] reads).map (·.map content) := by
    refine List.map_congr_left fun lines hlines => List.map_congr_left fun line hline => ?_
    have hmem : line ∈ completeLines reads.flatten :=
      flatten_linesOfReads reads ▸ List.mem_flatten.2 ⟨lines, hlines, hline⟩
    exact lineText_eq_content (fun hc => hnul (mem_of_mem_completeLines hmem hc)) (hlen line hmem)
  rw [assembles_start.consumeReads reads_start.receivedData, htext, Option.some.injEq,
    ← flatten_linesOfReads, List.map_flatten, taken_eq_iff]
  simp [← List.map_dropLast]

/-- `a` in a read of its own, then an empty line and `b` in one. -/
theorem consumeReads_apart :
    consumeReads .start [[0x61, newline], [newline, 0x62, carriageReturn, newline]] =
      some [[0x61], [0x62]] :=
  ((consumeReads_iff [[0x61, newline], [newline, 0x62, carriageReturn, newline]] (by decide)
    (by decide)).2 (by decide)).trans (by decide)

/-- `a` and `b` in one read: `a` is lost. -/
theorem consumeReads_counterexample : ¬ ∀ reads : List (List Byte),
    (∀ inbuf ∈ reads, inbuf.length ≤ 64) → nul ∉ reads.flatten →
      (∀ line ∈ completeLines reads.flatten, line.length ≤ inputMaxLen) →
        consumeReads .start reads =
          some (((completeLines reads.flatten).map content).filter (· ≠ [])) := by
  intro h
  have hlines := h [[0x61, newline, 0x62, newline]] (by decide) (by decide) (by decide)
  rw [assembles_start.consumeReads reads_start.receivedData] at hlines
  revert hlines
  decide

end VolumeControl
