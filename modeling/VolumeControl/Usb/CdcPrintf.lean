import VolumeControl.Lib.Expand
import VolumeControl.Lib.Heap
import VolumeControl.Usb.CdcInput

/-!
# Newlines on the USB serial port

`cdc_printf` sends every `\n` as `\r\n`. One loop counts the newlines, to size
the block that a second one fills; `replaceLfWithCrlf_exact` says that the
two agree.
-/

namespace VolumeControl

open Expand Heap

def strlen (buffer : List Byte) : Nat := (buffer.takeWhile (· ≠ nul)).length

/-- The first loop. -/
def countNewlines (buffer : List Byte) : Option Nat :=
  (List.range (strlen buffer)).foldlM (fun count i => do
    let c ← buffer[i]?
    return if c = newline then count + 1 else count) 0

/-- A round of the second loop, on `retval` and `j`. -/
def copyByte (s : Block Byte × Nat) (c : Byte) : Option (Block Byte × Nat) := do
  let (retval, j) ← if c = newline then do
      let retval ← s.1.write s.2 carriageReturn
      pure (retval, s.2 + 1)
    else pure s
  let retval ← retval.write j c
  return (retval, j + 1)

/-- `retval`, with a `malloc` that does not fail; `buffer` is freed after the last read of it. -/
def replaceLfWithCrlfAllocateAndFree (buffer : List Byte) : Option (Block Byte) := do
  let count ← countNewlines buffer
  let (retval, _) ← (List.range (strlen buffer + 1)).foldlM (fun s i => do
    let c ← buffer[i]?
    copyByte s c) (malloc (count + strlen buffer + 1), 0)
  return retval

/-- The string that `tud_cdc_write_str` is given, for the text that the format stands for. -/
def cdcPrintf (formatted : List Byte) : Option (List Byte) := do
  let retval ← replaceLfWithCrlfAllocateAndFree (formatted ++ [nul])
  return (retval.cells.takeWhile (· ≠ some nul)).reduceOption

def crlf (s : List Byte) : List Byte := expand carriageReturn newline s

/-! ## The loops -/

/-- A loop over the first places of a buffer is one over what is there. -/
theorem foldlM_range_getElem? {α σ : Type} (f : σ → α → Option σ) (l : List α) (s : σ) {n : Nat}
    (hn : n ≤ l.length) :
    ((List.range n).foldlM (fun s i => do
      let a ← l[i]?
      f s a) s) = (l.take n).foldlM f s := by
  induction n with
  | zero => rfl
  | succ n ih =>
    have hget : l[n]? = some l[n] := List.getElem?_eq_getElem hn
    rw [List.range_succ, List.foldlM_append, ih (Nat.le_of_succ_le hn), List.take_add_one, hget,
      List.foldlM_append]
    simp [hget]

theorem strlen_append {s : List Byte} (hnul : nul ∉ s) (rest : List Byte) :
    strlen (s ++ nul :: rest) = s.length := by
  have hall : ∀ c ∈ s, decide (c ≠ nul) = true := fun c hc => by
    simpa using fun heq : c = nul => hnul (heq ▸ hc)
  rw [strlen, List.takeWhile_append_of_pos hall]
  simp

theorem foldlM_count (s : List Byte) (n : Nat) :
    s.foldlM (fun count c => some (if c = newline then count + 1 else count)) n =
      some (s.count newline + n) := by
  induction s generalizing n with
  | nil => simp
  | cons c s ih =>
    rw [List.foldlM_cons, Option.bind_eq_bind, Option.bind_some, ih]
    by_cases hc : c = newline
    · simp [hc]
      omega
    · simp [hc]

theorem countNewlines_eq {s : List Byte} (hnul : nul ∉ s) (rest : List Byte) :
    countNewlines (s ++ nul :: rest) = some (s.count newline) := by
  rw [countNewlines, strlen_append hnul, foldlM_range_getElem? _ _ _ (by simp), List.take_left]
  exact foldlM_count s 0

theorem copyByte_filled {b : Block Byte} {l : List Byte} {size : Nat} (h : Filled b l size)
    (c : Byte) (hle : (l ++ crlf [c]).length ≤ size) :
    ∃ b', copyByte (b, l.length) c = some (b', (l ++ crlf [c]).length) ∧
      Filled b' (l ++ crlf [c]) size := by
  by_cases hc : c = newline
  · have hcrlf : l ++ crlf [c] = l ++ [carriageReturn] ++ [c] := by simp [crlf, hc]
    rw [hcrlf] at hle ⊢
    simp only [List.length_append, List.length_singleton] at hle
    obtain ⟨b₁, hb₁, h₁⟩ := h.write (by omega) carriageReturn
    obtain ⟨b₂, hb₂, h₂⟩ := h₁.write (by simp; omega) c
    refine ⟨b₂, ?_, h₂⟩
    rw [List.length_append, List.length_singleton] at hb₂
    simp [copyByte, hc, hb₁]
    simp [← hc, hb₂]
  · have hcrlf : l ++ crlf [c] = l ++ [c] := by simp [crlf, hc]
    rw [hcrlf] at hle ⊢
    obtain ⟨b₁, hb₁, h₁⟩ := h.write (by simpa [Nat.succ_le_iff] using hle) c
    exact ⟨b₁, by simp [copyByte, hc, hb₁], h₁⟩

theorem copyBytes_filled {b : Block Byte} {l : List Byte} {size : Nat} (h : Filled b l size)
    (s : List Byte) (hle : (l ++ crlf s).length ≤ size) :
    ∃ b', s.foldlM copyByte (b, l.length) = some (b', (l ++ crlf s).length) ∧
      Filled b' (l ++ crlf s) size := by
  induction s generalizing b l with
  | nil => exact ⟨b, by simp [crlf], by simpa [crlf] using h⟩
  | cons c s ih =>
    have hcons : l ++ crlf (c :: s) = l ++ crlf [c] ++ crlf s := by simp [crlf]
    rw [hcons] at hle ⊢
    obtain ⟨b₁, hb₁, h₁⟩ := copyByte_filled h c (by simp at hle ⊢; omega)
    obtain ⟨b₂, hb₂, h₂⟩ := ih h₁ hle
    exact ⟨b₂, by rw [List.foldlM_cons, hb₁]; exact hb₂, h₂⟩

/-- The block comes out full. -/
theorem replaceLfWithCrlf_filled {s : List Byte} (hnul : nul ∉ s) (rest : List Byte) :
    ∃ retval, replaceLfWithCrlfAllocateAndFree (s ++ nul :: rest) = some retval ∧
      Filled retval (crlf s ++ [nul]) (crlf s ++ [nul]).length := by
  have hcrlf : crlf (s ++ [nul]) = crlf s ++ [nul] := by
    rw [crlf, expand_append]
    rfl
  have hsize : (crlf s ++ [nul]).length = s.count newline + s.length + 1 := by
    rw [List.length_append, crlf, length_expand, List.length_singleton]
  have htake : (s ++ nul :: rest).take (s.length + 1) = s ++ [nul] := by
    simp [List.take_append, List.take_of_length_le]
  obtain ⟨retval, hcopy, hfilled⟩ := copyBytes_filled
    (filled_malloc (s.count newline + s.length + 1)) (s ++ [nul]) (by simp [hcrlf, hsize])
  have hloop : (List.range (s.length + 1)).foldlM (fun state i => do
      let c ← (s ++ nul :: rest)[i]?
      copyByte state c) (malloc (s.count newline + s.length + 1), 0) =
        some (retval, ([] ++ crlf (s ++ [nul])).length) := by
    rw [foldlM_range_getElem? _ _ _ (by simp), htake]
    exact hcopy
  refine ⟨retval, ?_, ?_⟩
  · rw [replaceLfWithCrlfAllocateAndFree, countNewlines_eq hnul, strlen_append hnul,
      Option.bind_eq_bind, Option.bind_some, hloop]
    rfl
  · rwa [List.nil_append, hcrlf, ← hsize] at hfilled

/-- **Newlines are expanded exactly**: no write is outside the block, every byte of it is written
once, and what it holds is the string with `\r` before every `\n`, which can be taken back. -/
theorem replaceLfWithCrlf_exact {s : List Byte} (hnul : nul ∉ s) (rest : List Byte) :
    ∃ retval, replaceLfWithCrlfAllocateAndFree (s ++ nul :: rest) = some retval ∧
      retval.cells.length = s.count newline + s.length + 1 ∧
      retval.written = List.range (s.count newline + s.length + 1) ∧
      retval.cells = (crlf s ++ [nul]).map some ∧
      contract carriageReturn newline (crlf s) = s := by
  have hsize : (crlf s ++ [nul]).length = s.count newline + s.length + 1 := by
    rw [List.length_append, crlf, length_expand, List.length_singleton]
  obtain ⟨retval, hcall, hfilled⟩ := replaceLfWithCrlf_filled hnul rest
  have hcells := hfilled.cells_eq
  refine ⟨retval, hcall, ?_, ?_, hcells, contract_expand (by decide) s⟩
  · rw [hcells, List.length_map, hsize]
  · rw [hfilled.written, hsize]

/-- A carriage return that is there already, and two newlines in a row. -/
theorem replaceLfWithCrlf_exact_cr :
    ∃ retval, replaceLfWithCrlfAllocateAndFree [0x61, carriageReturn, newline, newline, nul] =
      some retval ∧ retval.cells = [0x61, carriageReturn, carriageReturn, newline, carriageReturn,
        newline, nul].map some :=
  have ⟨retval, hretval, _, _, hcells, _⟩ := replaceLfWithCrlf_exact
    (s := [0x61, carriageReturn, newline, newline]) (by decide) []
  ⟨retval, hretval, hcells⟩

theorem not_mem_crlf {s : List Byte} (hnul : nul ∉ s) : nul ∉ crlf s := by
  intro hmem
  obtain ⟨c, hc, hin⟩ := List.mem_flatMap.1 hmem
  have hne : c ≠ nul := fun heq => hnul (heq ▸ hc)
  split_ifs at hin
  · rcases List.mem_cons.1 hin with h | h
    · exact absurd h (by decide)
    · exact hne (List.mem_singleton.1 h).symm
  · exact hne (List.mem_singleton.1 hin).symm

theorem exists_append_nul (l : List Byte) :
    ∃ rest, l ++ [nul] = l.takeWhile (· ≠ nul) ++ nul :: rest := by
  induction l with
  | nil => exact ⟨[], rfl⟩
  | cons c l ih =>
    obtain ⟨rest, hrest⟩ := ih
    by_cases hc : c = nul
    · exact ⟨l ++ [nul], by simp [hc]⟩
    · exact ⟨rest, by simpa [hc] using hrest⟩

/-- **What is sent** is the text up to its first NUL, with its newlines expanded. -/
theorem cdcPrintf_eq (formatted : List Byte) :
    cdcPrintf formatted = some (crlf (formatted.takeWhile (· ≠ nul))) := by
  have hnul : nul ∉ formatted.takeWhile (· ≠ nul) := fun hmem => by
    simpa using List.mem_takeWhile_imp hmem
  obtain ⟨rest, hrest⟩ := exists_append_nul formatted
  obtain ⟨retval, hcall, hfilled⟩ := replaceLfWithCrlf_filled hnul rest
  have hbytes : ∀ c ∈ (crlf (formatted.takeWhile (· ≠ nul))).map some,
      decide (c ≠ some nul) = true := by
    intro c hc
    obtain ⟨c', hc', rfl⟩ := List.mem_map.1 hc
    simpa using fun heq : c' = nul => not_mem_crlf hnul (heq ▸ hc')
  rw [cdcPrintf, hrest, hcall, Option.bind_eq_bind, Option.bind_some, hfilled.cells_eq,
    List.map_append, List.takeWhile_append_of_pos hbytes]
  have hstop : ([nul].map some).takeWhile (fun c : Option Byte => decide (c ≠ some nul)) = [] := by
    simp
  rw [hstop, List.append_nil]
  change some (List.filterMap id _) = _
  rw [List.filterMap_map, Function.id_comp, List.filterMap_some]

end VolumeControl
