import SistemasOperativos.Console.Parser

/-!
# Programs written and read back

A program is written with one instruction a line, the operation and its parameters separated by
blanks.  Reading it back gives the same instructions: the lines are the ones that were written,
a line is cut into the parts it was joined from, and each part survives the trimming, also the
last one, which carries the line's terminator.  The parameters are numbers of 32 bits without a
sign and `atoi` has one; the 64 bits of `strtol` hold them all.
-/

namespace SistemasOperativos

/-! ## The writer -/

/-- A number in decimal digits. -/
def decimal (n : ℕ) : CString :=
  ascii (Nat.toDigits 10 n)

/-- The parts of an instruction's line. -/
def Instruction.parts (instruction : Instruction) : List CString :=
  instruction.id :: instruction.params.map fun param => decimal param.toNat

/-- An instruction's line, without its terminator. -/
def Instruction.written (instruction : Instruction) : CString :=
  [32].intercalate instruction.parts

/-- A program's text.  The last line has a terminator or not. -/
def programText (terminated : Bool) : List Instruction → List UInt8
  | [] => []
  | [instruction] => instruction.written ++ if terminated then [10] else []
  | instruction :: next :: rest =>
      instruction.written ++ 10 :: programText terminated (next :: rest)

/-- The byte is neither white space nor NUL. -/
def Printed (c : UInt8) : Prop :=
  isSpace c = false ∧ c ≠ 0

/-- The operation's name is not empty and free of white space and NUL. -/
def Instruction.Writable (instruction : Instruction) : Prop :=
  instruction.id ≠ [] ∧ ∀ c ∈ instruction.id, Printed c

/-! ## Numbers -/

theorem toNat_ofNat_digit {c : Char} (h : c.isDigit) : (UInt8.ofNat c.toNat).toNat = c.toNat := by
  have hc : c.toNat ≤ 57 := by
    have := h
    simp only [Char.isDigit, Bool.and_eq_true, decide_eq_true_eq] at this
    exact this.2
  rw [UInt8.toNat_ofNat']
  omega

theorem isDigit_of_mem_decimal {n : ℕ} {c : UInt8} (h : c ∈ decimal n) : isDigit c = true := by
  obtain ⟨d, hd, rfl⟩ := List.mem_map.mp h
  have hdigit := Nat.isDigit_of_mem_toDigits (by decide) (by decide) hd
  have hnat := toNat_ofNat_digit hdigit
  simp only [Char.isDigit, Bool.and_eq_true, decide_eq_true_eq] at hdigit
  simp only [isDigit, decide_eq_true_eq, UInt8.le_iff_toNat_le, hnat]
  exact hdigit

/-- Reading the digits of a number gives the number. -/
theorem digitsValue_decimal (n : ℕ) : digitsValue (decimal n) = n := by
  calc digitsValue (decimal n)
      = (Nat.toDigits 10 n).foldl
          (fun value c => 10 * value + ((UInt8.ofNat c.toNat).toNat - 48)) 0 :=
        List.foldl_map
    _ = (Nat.toDigits 10 n).foldl (fun value c => 10 * value + (c.toNat - '0'.toNat)) 0 := by
        apply List.foldl_ext
        intro value c hc
        rw [toNat_ofNat_digit (Nat.isDigit_of_mem_toDigits (by decide) (by decide) hc)]
        rfl
    _ = Nat.ofDigitChars 10 (Nat.toDigits 10 n) 0 := Nat.ofDigitChars_eq_foldl.symm
    _ = n := Nat.ofDigitChars_ten_toDigits

theorem printed_of_isDigit {c : UInt8} (h : isDigit c = true) : Printed c := by
  simp only [isDigit, decide_eq_true_eq, UInt8.le_iff_toNat_le] at h
  have h48 : (48 : UInt8).toNat = 48 := rfl
  constructor
  · simp only [isSpace, decide_eq_false_iff_not, not_or, not_and, UInt8.le_iff_toNat_le,
      ← UInt8.toNat_inj]
    have h32 : (32 : UInt8).toNat = 32 := rfl
    have h13 : (13 : UInt8).toNat = 13 := rfl
    omega
  · rintro rfl
    exact absurd h.1 (by decide)

/-- A text of digits is read as the number they stand for, up to the largest `long`. -/
theorem strtol_of_digits {digits : CString} (h : ∀ c ∈ digits, isDigit c = true) :
    strtol digits = min (digitsValue digits : ℤ) (2 ^ 63 - 1) := by
  have hspace : digits.dropWhile isSpace = digits := by
    rw [List.dropWhile_eq_self_iff]
    intro hlength
    simp [(printed_of_isDigit (h _ (List.getElem_mem hlength))).1]
  have hsign : ∀ sign : UInt8, isDigit sign = false → digits.head? ≠ some sign := by
    intro sign hsign hhead
    rw [h sign (List.mem_of_mem_head? hhead)] at hsign
    cases hsign
  have hminus := hsign 45 (by decide)
  have hplus := hsign 43 (by decide)
  have htake : digits.takeWhile isDigit = digits := List.takeWhile_eq_self_iff.mpr h
  simp [strtol, hspace, hminus, hplus, htake]

/-- `atoi` gives back a number of 32 bits that was written without a sign. -/
theorem atoi_decimal (param : Word) : atoi (decimal param.toNat) = param := by
  have hlt : param.toNat < 2 ^ 32 := param.isLt
  have hvalue : strtol (decimal param.toNat) = param.toNat := by
    rw [strtol_of_digits fun c hc => isDigit_of_mem_decimal hc, digitsValue_decimal]
    omega
  rw [atoi, hvalue, BitVec.ofInt_natCast, BitVec.ofNat_toNat, BitVec.setWidth_eq]

/-! ## Lines -/

theorem Instruction.printed_of_mem_parts {instruction : Instruction} (h : instruction.Writable)
    {part : CString} (hpart : part ∈ instruction.parts) : ∀ c ∈ part, Printed c := by
  rcases List.mem_cons.mp hpart with rfl | hpart
  · exact h.2
  · obtain ⟨param, -, rfl⟩ := List.mem_map.mp hpart
    exact fun c hc => printed_of_isDigit (isDigit_of_mem_decimal hc)

theorem mem_intercalate {parts : List CString} {c : UInt8} (h : c ∈ [32].intercalate parts) :
    c = 32 ∨ ∃ part ∈ parts, c ∈ part := by
  induction parts with
  | nil => simp at h
  | cons part parts ih =>
      cases parts with
      | nil => exact Or.inr ⟨part, List.mem_cons_self, by simpa using h⟩
      | cons next rest =>
          rw [List.intercalate_cons_cons, List.append_assoc, List.mem_append, List.mem_append,
            List.mem_singleton] at h
          rcases h with h | h | h
          · exact Or.inr ⟨part, List.mem_cons_self, h⟩
          · exact Or.inl h
          · obtain hblank | ⟨other, hother, hc⟩ := ih h
            · exact Or.inl hblank
            · exact Or.inr ⟨other, List.mem_cons_of_mem _ hother, hc⟩

/-- A written line has neither terminators nor NULs in it. -/
theorem Instruction.mem_written {instruction : Instruction} (h : instruction.Writable) {c : UInt8}
    (hc : c ∈ instruction.written) : c ≠ 10 ∧ c ≠ 0 := by
  obtain rfl | ⟨part, hpart, hc⟩ := mem_intercalate hc
  · exact ⟨by decide, by decide⟩
  · obtain ⟨hspace, hnul⟩ := printed_of_mem_parts h hpart c hc
    refine ⟨?_, hnul⟩
    rintro rfl
    exact absurd hspace (by decide)

theorem Instruction.written_ne_nil {instruction : Instruction} (h : instruction.Writable) :
    instruction.written ≠ [] := by
  have hid := h.1
  cases hparams : instruction.params with
  | nil => simpa [written, parts, hparams] using hid
  | cons param params => simp [written, parts, hparams, List.intercalate_cons_cons, hid]

/-- A terminated line is the first that is read. -/
theorem readLines_append {line : List UInt8} (h : 10 ∉ line) (rest : List UInt8) :
    readLines (line ++ 10 :: rest) = (line ++ [10]) :: readLines rest := by
  induction line with
  | nil => simp [readLines]
  | cons c line ih =>
      rw [List.mem_cons, not_or] at h
      rw [List.cons_append, readLines, if_neg (Ne.symm h.1), ih h.2]
      rfl

/-- A last line that the file does not end is read as well. -/
theorem readLines_of_notMem {line : List UInt8} (hne : line ≠ []) (h : 10 ∉ line) :
    readLines line = [line] := by
  induction line with
  | nil => exact absurd rfl hne
  | cons c line ih =>
      rw [List.mem_cons, not_or] at h
      rw [readLines, if_neg (Ne.symm h.1)]
      cases line with
      | nil => rfl
      | cons next rest => rw [ih (List.cons_ne_nil _ _) h.2]

/-! ## Parsing a line -/

/-- White space behind a text without any is trimmed off. -/
theorem stringTrim_append {text space : CString} (htext : ∀ c ∈ text, isSpace c = false)
    (hspace : ∀ c ∈ space, isSpace c = true) : stringTrim (text ++ space) = text := by
  have hright : (text ++ space).rdropWhile isSpace = text := by
    rw [List.rdropWhile, List.reverse_append, List.dropWhile_append_of_pos (by simpa using hspace)]
    have hself : text.reverse.dropWhile isSpace = text.reverse := by
      rw [List.dropWhile_eq_self_iff]
      intro hlength
      rw [htext _ (List.mem_reverse.mp (List.getElem_mem hlength))]
      exact Bool.false_ne_true
    rw [hself, List.reverse_reverse]
  cases text with
  | nil =>
      rw [stringTrim, List.nil_append, List.dropWhile_eq_nil_iff.mpr hspace, List.rdropWhile_nil]
  | cons c text =>
      rw [stringTrim, List.cons_append, List.dropWhile_cons_of_neg]
      · exact hright
      · simp [htext c List.mem_cons_self]

theorem stringTrim_of_printed {text : CString} (h : ∀ c ∈ text, Printed c) :
    stringTrim text = text := by
  have hnone : ∀ c ∈ ([] : CString), isSpace c = true := fun c hc => absurd hc List.not_mem_nil
  calc stringTrim text = stringTrim (text ++ []) := by rw [List.append_nil]
    _ = text := stringTrim_append (fun c hc => (h c hc).1) hnone

/-- What follows the joined parts follows the last of them. -/
theorem intercalate_concat_append (init : List CString) (last space : CString) :
    [32].intercalate (init ++ [last]) ++ space = [32].intercalate (init ++ [last ++ space]) := by
  induction init with
  | nil => simp
  | cons part init ih =>
      have hne : ∀ text : CString, init ++ [text] ≠ [] := by simp
      rw [List.cons_append, List.cons_append, List.intercalate_cons_of_ne_nil (hne _),
        List.intercalate_cons_of_ne_nil (hne _), List.append_assoc, ih]

/-- Splitting a line and trimming the parts gives the parts it was joined from. -/
theorem map_stringTrim_stringSplit {parts : List CString} (hne : parts ≠ [])
    (hprinted : ∀ part ∈ parts, ∀ c ∈ part, Printed c) {space : CString}
    (hspace : ∀ c ∈ space, isSpace c = true ∧ c ≠ 32) :
    (stringSplit ([32].intercalate parts ++ space)).map stringTrim = parts := by
  obtain ⟨init, last, rfl⟩ : ∃ init last, parts = init ++ [last] :=
    ⟨_, _, (List.dropLast_append_getLast hne).symm⟩
  have hinit : ∀ part ∈ init, ∀ c ∈ part, Printed c :=
    fun part hpart => hprinted part (List.mem_append_left _ hpart)
  have hlast : ∀ c ∈ last, Printed c := hprinted last (by simp)
  have hblank : ∀ {c : UInt8}, Printed c → c ≠ 32 := by
    rintro c ⟨hc, -⟩ rfl
    exact absurd hc (by decide)
  have hsplit : stringSplit ([32].intercalate (init ++ [last ++ space])) =
      init ++ [last ++ space] := by
    apply List.splitOn_intercalate
    · intro part hpart hmem
      rcases List.mem_append.mp hpart with hpart | hpart
      · exact hblank (hinit part hpart 32 hmem) rfl
      · rw [List.mem_singleton.mp hpart] at hmem
        rcases List.mem_append.mp hmem with hmem | hmem
        · exact hblank (hlast 32 hmem) rfl
        · exact (hspace 32 hmem).2 rfl
    · simp
  rw [intercalate_concat_append, hsplit, List.map_append]
  congr 1
  · calc init.map stringTrim = init.map id := by
          apply List.map_congr_left
          intro part hpart
          exact stringTrim_of_printed (hinit part hpart)
      _ = init := List.map_id init
  · rw [List.map_singleton, stringTrim_append (fun c hc => (hlast c hc).1)
      fun c hc => (hspace c hc).1]

theorem parseInstruction_eq {line : List UInt8} {id : CString} {params : List CString}
    (h : (stringSplit (lineString line)).map stringTrim = id :: params) :
    parseInstruction line = ⟨id, params.map atoi⟩ := by
  obtain ⟨first, rest, hsplit, rfl, rfl⟩ := List.map_eq_cons_iff.mp h
  rw [parseInstruction, hsplit, List.map_map]
  rfl

/-- A written line, with its terminator or without, is parsed into the instruction. -/
theorem parseInstruction_written {instruction : Instruction} (h : instruction.Writable)
    (terminated : Bool) :
    parseInstruction (instruction.written ++ if terminated then [10] else []) = instruction := by
  have hend : ∀ c ∈ (if terminated then [10] else [] : CString), c = 10 := by
    cases terminated <;> simp
  have hline : lineString (instruction.written ++ if terminated then [10] else []) =
      [32].intercalate instruction.parts ++ if terminated then [10] else [] := by
    apply List.takeWhile_eq_self_iff.mpr
    intro c hc
    rcases List.mem_append.mp hc with hc | hc
    · simpa using (Instruction.mem_written h hc).2
    · rw [hend c hc]
      decide
  have hparts : (stringSplit (lineString
      (instruction.written ++ if terminated then [10] else []))).map stringTrim =
      instruction.parts := by
    rw [hline]
    apply map_stringTrim_stringSplit (List.cons_ne_nil _ _)
    · exact fun part hpart => Instruction.printed_of_mem_parts h hpart
    · intro c hc
      rw [hend c hc]
      decide
  rw [parseInstruction_eq hparts, List.map_map]
  have hparams : instruction.params.map (atoi ∘ fun param => decimal param.toNat) =
      instruction.params := by
    calc instruction.params.map (atoi ∘ fun param => decimal param.toNat)
        = instruction.params.map id := List.map_congr_left fun param _ => atoi_decimal param
      _ = instruction.params := List.map_id _
  rw [hparams]

/-! ## Reading a program -/

theorem getCode_append {line : List UInt8} (h : 10 ∉ line) (rest : List UInt8) :
    getCode (line ++ 10 :: rest) = parseInstruction (line ++ [10]) :: getCode rest := by
  rw [getCode, readLines_append h, List.map_cons]
  rfl

theorem getCode_of_notMem {line : List UInt8} (hne : line ≠ []) (h : 10 ∉ line) :
    getCode line = [parseInstruction line] := by
  rw [getCode, readLines_of_notMem hne h, List.map_singleton]

/-- Reading a written program gives the program. -/
theorem getCode_programText {instructions : List Instruction}
    (h : ∀ instruction ∈ instructions, instruction.Writable) (terminated : Bool) :
    getCode (programText terminated instructions) = instructions := by
  induction instructions with
  | nil => rfl
  | cons instruction rest ih =>
      have hfirst := h instruction List.mem_cons_self
      have hline : 10 ∉ instruction.written :=
        fun hmem => (Instruction.mem_written hfirst hmem).1 rfl
      have hterminated : parseInstruction (instruction.written ++ [10]) = instruction :=
        parseInstruction_written hfirst true
      cases rest with
      | nil =>
          cases terminated with
          | true =>
              show getCode (instruction.written ++ 10 :: []) = [instruction]
              rw [getCode_append hline, hterminated]
              rfl
          | false =>
              have hlast := parseInstruction_written hfirst false
              show getCode (instruction.written ++ []) = [instruction]
              rw [List.append_nil, getCode_of_notMem (Instruction.written_ne_nil hfirst) hline]
              rw [if_neg Bool.false_ne_true, List.append_nil] at hlast
              rw [hlast]
      | cons next rest =>
          show getCode (instruction.written ++ 10 :: programText terminated (next :: rest)) =
            instruction :: next :: rest
          rw [getCode_append hline, hterminated,
            ih fun other hother => h other (List.mem_cons_of_mem _ hother)]

/-- Two lines, with the largest parameter there is, the second one not ended. -/
theorem getCode_programText_small :
    getCode (programText false
      [⟨ascii ['C', 'O', 'P', 'Y'], [0, -1]⟩, ⟨ascii ['E', 'X', 'I', 'T'], []⟩]) =
      [⟨ascii ['C', 'O', 'P', 'Y'], [0, -1]⟩, ⟨ascii ['E', 'X', 'I', 'T'], []⟩] :=
  getCode_programText (by simp [Instruction.Writable, Printed, ascii, isSpace]) false

example : programText true [⟨ascii ['R'], [7, 10]⟩] =
    ascii ['R', ' ', '7', ' ', '1', '0', '\n'] := by decide

end SistemasOperativos
