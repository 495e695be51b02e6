import VolumeControl.Hid.Report
import VolumeControl.Lib.CString
import VolumeControl.Lib.Lines

/-!
# Lines from the USB serial port

`handle_cdc_input` reads up to 64 bytes at a time and puts lines together in
`buffer`, which with its index `ind` survives from one read to the next. The
last complete line is kept in `received_data`; the line `reset` reboots the
microcontroller into its bootloader, which is how `build.sh` flashes it.

`Reads` says what the static variables hold after a stream, and
`Reads.handleCdcInput` that a call keeps it so. `handleReads_stream` is the
result for the stream as a whole.
-/

namespace VolumeControl

open CString

def nul : Byte := 0x00
def newline : Byte := 0x0a
def carriageReturn : Byte := 0x0d
def inputMaxLen : Nat := 100

/-- `"reset"`. -/
def resetCommand : List Byte := [0x72, 0x65, 0x73, 0x65, 0x74]

/-- The static variables, and how often `reset_usb_boot` has been called. -/
structure Cdc where
  buffer : Vector Byte (inputMaxLen + 1)
  ind : Int
  receivedData : Vector Byte (inputMaxLen + 1)
  resets : Nat

def Cdc.start : Cdc := ⟨Vector.replicate _ nul, 0, Vector.replicate _ nul, 0⟩

/-- One round of the loop; no result on a store outside `buffer`. -/
def handleByte (s : Cdc) (c : Byte) : Option Cdc := do
  if c = newline then
    let buffer ← store s.buffer s.ind nul
    let resets := if text nul buffer = resetCommand then s.resets + 1 else s.resets
    let receivedData ← strcpy nul s.receivedData buffer
    return ⟨buffer, 0, receivedData, resets⟩
  else if c ≠ carriageReturn then
    if s.ind < inputMaxLen then
      let buffer ← store s.buffer s.ind c
      return { s with buffer := buffer, ind := s.ind + 1 }
    else return s
  else return s

/-- The call that reads `inbuf`. -/
def handleCdcInput (s : Cdc) (inbuf : List Byte) : Option Cdc := inbuf.foldlM handleByte s

/-- A call for each read. -/
def handleReads (s : Cdc) (reads : List (List Byte)) : Option Cdc := reads.foldlM handleCdcInput s

/-- The cutting of a stream into reads does not matter. -/
theorem handleReads_eq (s : Cdc) (reads : List (List Byte)) :
    handleReads s reads = handleCdcInput s reads.flatten := by
  unfold handleReads
  induction reads generalizing s with
  | nil => rfl
  | cons inbuf reads ih =>
    rw [List.foldlM_cons, List.flatten_cons, handleCdcInput, handleCdcInput, List.foldlM_append]
    exact bind_congr ih

/-! ## The lines of a stream -/

/-- What fits of a line, finished or not. -/
def kept (line : List Byte) : List Byte := (line.filter (· ≠ carriageReturn)).take inputMaxLen

/-- A complete line as a string. -/
def lineText (line : List Byte) : List Byte := (kept line).takeWhile (· ≠ nul)

def completeLines (stream : List Byte) : List (List Byte) := (Lines.split newline stream).1

def pendingLine (stream : List Byte) : List Byte := (Lines.split newline stream).2

theorem length_kept_le (line : List Byte) : (kept line).length ≤ inputMaxLen := by
  exact List.length_take_le _ _

theorem kept_snoc (line : List Byte) (c : Byte) : kept (line ++ [c]) =
    if c ≠ carriageReturn ∧ (kept line).length < inputMaxLen then kept line ++ [c]
    else kept line := by
  by_cases hc : c = carriageReturn
  · simp [kept, hc]
  · have hfilter : (line ++ [c]).filter (· ≠ carriageReturn) =
        line.filter (· ≠ carriageReturn) ++ [c] := by simp [hc]
    rw [kept, kept, hfilter]
    by_cases hlen : (line.filter (· ≠ carriageReturn)).length < inputMaxLen
    · rw [List.take_of_length_le (by simpa [Nat.add_one_le_iff] using hlen),
        List.take_of_length_le hlen.le, if_pos ⟨hc, hlen⟩]
    · have htake : ((line.filter (· ≠ carriageReturn)).take inputMaxLen).length = inputMaxLen :=
        List.length_take_of_le (Nat.le_of_not_lt hlen)
      rw [List.take_append_of_le_length (Nat.le_of_not_lt hlen),
        if_neg fun h => h.2.ne htake]

theorem completeLines_newline (stream : List Byte) :
    completeLines (stream ++ [newline]) = completeLines stream ++ [pendingLine stream] := by
  simp [completeLines, pendingLine, Lines.split_snoc, Lines.feed]

theorem pendingLine_newline (stream : List Byte) : pendingLine (stream ++ [newline]) = [] := by
  simp [pendingLine, Lines.split_snoc, Lines.feed]

/-- Reading on without an end of line. -/
theorem split_append {bytes : List Byte} (stream : List Byte) (h : newline ∉ bytes) :
    completeLines (stream ++ bytes) = completeLines stream ∧
      pendingLine (stream ++ bytes) = pendingLine stream ++ bytes := by
  simp [completeLines, pendingLine, Lines.split_append stream h]

/-! ## One byte -/

/-- What the variables hold after a stream. -/
structure Reads (s : Cdc) (stream : List Byte) : Prop where
  ind : s.ind = (kept (pendingLine stream)).length
  buffer : s.buffer.toList.take (kept (pendingLine stream)).length = kept (pendingLine stream)
  receivedData : text nul s.receivedData =
    ((completeLines stream).getLast?.map lineText).getD []
  resets : s.resets = (completeLines stream).countP (lineText · = resetCommand)

theorem reads_start : Reads Cdc.start [] where
  ind := rfl
  buffer := rfl
  receivedData := by
    show text nul (Vector.replicate (inputMaxLen + 1) nul) = []
    simp [text, inputMaxLen, List.replicate_succ]
  resets := rfl

/-- The line that is being put together after a stream. -/
structure Assembles (s : Cdc) (stream : List Byte) : Prop where
  ind : s.ind = (kept (pendingLine stream)).length
  buffer : s.buffer.toList.take (kept (pendingLine stream)).length = kept (pendingLine stream)

variable {s : Cdc} {stream : List Byte} {c : Byte}

theorem Reads.assembles (h : Reads s stream) : Assembles s stream := ⟨h.ind, h.buffer⟩

theorem handleByte_newline {buffer received : Vector Byte (inputMaxLen + 1)}
    (hstore : store s.buffer s.ind nul = some buffer)
    (hcopy : strcpy nul s.receivedData buffer = some received) : handleByte s newline =
      some ⟨buffer, 0, received,
        if text nul buffer = resetCommand then s.resets + 1 else s.resets⟩ := by
  simp [handleByte, hstore, hcopy]

/-- The end of a line: it is handed over, and the next one starts. -/
theorem Assembles.handleByte_newline (h : Assembles s stream) :
    ∃ s', handleByte s newline = some s' ∧ Assembles s' (stream ++ [newline]) ∧
      text nul s'.receivedData = lineText (pendingLine stream) ∧
      s'.resets = if lineText (pendingLine stream) = resetCommand then s.resets + 1
        else s.resets := by
  have hlen : (kept (pendingLine stream)).length < inputMaxLen + 1 :=
    Nat.lt_succ_of_le (length_kept_le _)
  have hstore := store_of_lt (v := s.buffer) (a := nul) hlen
  have htake := (take_set (v := s.buffer) (a := nul) hlen).trans
    (congrArg (· ++ [nul]) h.buffer)
  have htext := text_eq_of_take htake
  have hnul : nul ∈ (s.buffer.set (kept (pendingLine stream)).length nul).toList :=
    List.mem_of_mem_take (htake.symm ▸ List.mem_append_right _ List.mem_cons_self)
  obtain ⟨received, hcopy, hreceived⟩ := strcpy_eq_some s.receivedData hnul
  rw [htext] at hreceived
  rw [← h.ind] at hstore
  refine ⟨_, VolumeControl.handleByte_newline hstore hcopy, ?_, hreceived, ?_⟩
  · constructor <;> rw [pendingLine_newline] <;> rfl
  · rw [htext]
    rfl

/-- A byte that ends no line. -/
theorem Assembles.snoc {s' : Cdc} (hc : c ≠ newline)
    (hind : s'.ind = (kept (pendingLine stream ++ [c])).length)
    (hbuffer : s'.buffer.toList.take (kept (pendingLine stream ++ [c])).length =
      kept (pendingLine stream ++ [c])) : Assembles s' (stream ++ [c]) := by
  have hpending := (split_append stream (List.mem_singleton.not.2 hc.symm)).2
  constructor
  · rw [hpending, hind]
  · rw [hpending, hbuffer]

theorem Assembles.handleByte_of_ne (h : Assembles s stream) (hc : c ≠ newline) :
    ∃ s', handleByte s c = some s' ∧ Assembles s' (stream ++ [c]) ∧
      s'.receivedData = s.receivedData ∧ s'.resets = s.resets := by
  have hkept := kept_snoc (pendingLine stream) c
  by_cases hstored : c ≠ carriageReturn ∧ (kept (pendingLine stream)).length < inputMaxLen
  · obtain ⟨hcr, hlen⟩ := hstored
    have hstore := store_of_lt (v := s.buffer) (a := c) (Nat.lt_succ_of_lt hlen)
    have htake := (take_set (v := s.buffer) (a := c) (Nat.lt_succ_of_lt hlen)).trans
      (congrArg (· ++ [c]) h.buffer)
    have hind : s.ind < inputMaxLen := by
      rw [h.ind]
      exact_mod_cast hlen
    rw [if_pos ⟨hcr, hlen⟩] at hkept
    rw [← h.ind] at hstore
    have hbyte : handleByte s c = some
        { s with
          buffer := s.buffer.set (kept (pendingLine stream)).length c
          ind := s.ind + 1 } := by
      simp [handleByte, hc, hcr, hind, hstore]
    refine ⟨_, hbyte, .snoc hc ?_ ?_, rfl, rfl⟩
    · simp [hkept, h.ind]
    · rw [hkept, List.length_append]
      exact htake
  · have hind : c ≠ carriageReturn → ¬ s.ind < inputMaxLen := by
      intro hcr hlt
      rw [h.ind] at hlt
      exact hstored ⟨hcr, by exact_mod_cast hlt⟩
    rw [if_neg hstored] at hkept
    refine ⟨s, by simp +contextual [handleByte, hc, hind], .snoc hc ?_ ?_, rfl, rfl⟩
    · rw [hkept, h.ind]
    · rw [hkept, h.buffer]

theorem Reads.handleByte (h : Reads s stream) (c : Byte) :
    ∃ s', handleByte s c = some s' ∧ Reads s' (stream ++ [c]) := by
  by_cases hc : c = newline
  · subst hc
    obtain ⟨s', hs', h', hreceived, hresets⟩ := h.assembles.handleByte_newline
    refine ⟨s', hs', h'.ind, h'.buffer, ?_, ?_⟩
    · rw [completeLines_newline, List.getLast?_concat]
      exact hreceived
    · rw [completeLines_newline, List.countP_append, ← h.resets, List.countP_singleton, hresets]
      split_ifs <;> simp_all
  · obtain ⟨s', hs', h', hreceived, hresets⟩ := h.assembles.handleByte_of_ne hc
    have hlines := (split_append stream (List.mem_singleton.not.2 (Ne.symm hc))).1
    refine ⟨s', hs', h'.ind, h'.buffer, ?_, ?_⟩
    · rw [hlines, hreceived, h.receivedData]
    · rw [hlines, hresets, h.resets]

/-! ## A stream -/

theorem Reads.handleCdcInput (h : Reads s stream) (inbuf : List Byte) :
    ∃ s', handleCdcInput s inbuf = some s' ∧ Reads s' (stream ++ inbuf) := by
  induction inbuf generalizing s stream with
  | nil => exact ⟨s, rfl, by simpa using h⟩
  | cons c inbuf ih =>
    obtain ⟨s₁, hs₁, h₁⟩ := h.handleByte c
    obtain ⟨s₂, hs₂, h₂⟩ := ih h₁
    refine ⟨s₂, ?_, by simpa using h₂⟩
    rw [VolumeControl.handleCdcInput, List.foldlM_cons, hs₁]
    exact hs₂

theorem Reads.ind_mem (h : Reads s stream) : 0 ≤ s.ind ∧ s.ind ≤ inputMaxLen := by
  have := length_kept_le (pendingLine stream)
  rw [h.ind]
  omega

/-- Whatever line is pending, `\nreset\n` completes the line `reset`. -/
theorem Reads.reset (h : Reads s stream) : ∃ s',
    VolumeControl.handleCdcInput s (newline :: resetCommand ++ [newline]) = some s' ∧
      s.resets < s'.resets := by
  obtain ⟨s', hs', h'⟩ := h.handleCdcInput (newline :: resetCommand ++ [newline])
  refine ⟨s', hs', ?_⟩
  have hlines : completeLines (stream ++ (newline :: resetCommand ++ [newline])) =
      completeLines stream ++ [pendingLine stream, resetCommand] := by
    obtain ⟨hlines, hpending⟩ :=
      split_append (stream ++ [newline]) (show newline ∉ resetCommand by decide)
    rw [show stream ++ (newline :: resetCommand ++ [newline]) =
      stream ++ [newline] ++ resetCommand ++ [newline] by simp, completeLines_newline, hlines,
      hpending, completeLines_newline, pendingLine_newline]
    simp
  rw [h.resets, h'.resets, hlines]
  simp [show lineText resetCommand = resetCommand by decide]

/-- **Reads put lines together, however the stream is cut.** No store is outside `buffer`. -/
theorem handleReads_stream (reads : List (List Byte)) :
    ∃ (s : Cdc) (lines : List (List Byte)) (pending : List Byte),
      handleReads Cdc.start reads = some s ∧
      reads.flatten = lines.flatMap (· ++ [newline]) ++ pending ∧
      (∀ line ∈ lines, newline ∉ line) ∧ newline ∉ pending ∧
      s.ind = (kept pending).length ∧ s.buffer.toList.take s.ind.toNat = kept pending ∧
      text nul s.receivedData = (lines.getLast?.map lineText).getD [] ∧
      s.resets = lines.countP (lineText · = resetCommand) ∧
      (∀ reads', reads'.flatten = reads.flatten → handleReads Cdc.start reads' = some s) ∧
      (∀ pre c post, reads.flatten = pre ++ c :: post →
        ∃ s', handleCdcInput Cdc.start pre = some s' ∧ 0 ≤ s'.ind ∧ s'.ind ≤ inputMaxLen) ∧
      ∀ reads', reads'.flatten = newline :: resetCommand ++ [newline] →
        ∃ s', handleReads s reads' = some s' ∧ s.resets < s'.resets := by
  obtain ⟨s, hs, h⟩ := reads_start.handleCdcInput reads.flatten
  obtain ⟨hjoin, hlines, hpending⟩ := Lines.split_iff.1
    (show Lines.split newline reads.flatten = (_, _) from rfl)
  have hbuffer := h.buffer
  rw [← Int.toNat_natCast (kept (pendingLine ([] ++ reads.flatten))).length, ← h.ind] at hbuffer
  refine ⟨s, _, _, (handleReads_eq _ _).trans hs, hjoin.symm, hlines, hpending, h.ind, hbuffer,
    h.receivedData, h.resets, ?_, ?_, ?_⟩
  · intro reads' heq
    rw [handleReads_eq, heq, hs]
  · intro pre c post _
    obtain ⟨s', hs', h'⟩ := reads_start.handleCdcInput pre
    exact ⟨s', hs', h'.ind_mem⟩
  · intro reads' heq
    rw [handleReads_eq, heq]
    exact h.reset

end VolumeControl
