import QuakeJs.Engine.Native
import QuakeJs.Ledger.Transaction
import Mathlib.Data.List.Basic

/-!
# Reading a journal

`Match.read_events` on the text of the file, with its byte offsets, its limit
of 512 bytes for a line and its batches of 256 lines.  The engine writes only
ASCII, so a byte is a character.

`readEvents_content` says what it returns for a file of whole lines, which may
end with a part of one: the next lines after those that the offset has passed,
up to a batch of them.  The part of a line is an error, once it is reached.
-/

namespace QuakeJs.Server

open Engine

/-- An exception of the server. -/
inductive Fault
  /-- One that the code raises itself. -/
  | raised (e : LedgerError)
  /-- One from below: the database, the operating system, a timeout, a value
  of the wrong type. -/
  | failure
  /-- Not in the source: a loop has used up its bound. -/
  | exhausted
deriving DecidableEq, Repr

/-- `raise PublicError(message)`. -/
def Fault.publicError (message : String) : Fault := .raised (.publicError message)

/-- `raise RuntimeError(message)`. -/
def Fault.runtimeError (message : String) : Fault := .raised (.runtimeError message)

/-! ## Text -/

/-- `file.readline(limit)`: up to the next newline, the limit or the end. -/
def readline : Nat → List Char → List Char
  | 0, _ => []
  | _, [] => []
  | limit + 1, c :: rest => if c = '\n' then [c] else c :: readline limit rest

/-- The number between the colon and the comma. -/
def number (text : List Char) : Option Nat :=
  match text with
  | ':' :: rest =>
    let digits := rest.dropLast
    if rest.getLast? = some ',' ∧ digits ≠ [] ∧ digits.all Char.isDigit = true then
      some (Nat.ofDigitChars 10 digits 0)
    else none
  | _ => none

/-- `json.loads`, on the shape that the engine writes.  A text with an escape
is not one of its texts. -/
def loads (line : List Char) : Option Line :=
  if '\\' ∈ line then none
  else match line.splitOn '"' with
  | [['{'], sequence, value, killer, [':'], killerId, [','], victim, [':'], victimId,
      ['}', '\n']] =>
    if sequence = "sequence".toList ∧ killer = "killer".toList ∧ victim = "victim".toList then
      (number value).map fun n =>
        { sequence := n, killer := String.ofList killerId, victim := String.ofList victimId }
    else none
  | _ => none

/-- The loop of `read_events`: at most `n` lines from `position` on. -/
def readLines : Nat → Nat → List Char → Except Fault (List (Nat × Line))
  | 0, _, _ => .ok []
  | n + 1, position, rest =>
    let line := readline 512 rest
    if line = [] then .ok []
    else if line.getLast? ≠ some '\n' then
      .error (.runtimeError "Incomplete game journal; owner review required.")
    else match loads line with
    | none => .error .failure
    | some event =>
      (readLines n (position + line.length) (rest.drop line.length)).map
        fun more => (position + line.length, event) :: more

/-- The number of lines in a batch. -/
def batch : Nat := 256

/-- `Match.read_events`. -/
def readEvents (file : Option (List Char)) (offset : Nat) :
    Except Fault (List (Nat × Line)) :=
  match file with
  | none => .error (.runtimeError "Missing game journal; admissions are stopped.")
  | some content => readLines batch offset (content.drop offset)

/-! ## Whole lines -/

/-- The characters of a line. -/
def chars (line : Line) : List Char := line.render.toList

/-- The text of a file of whole lines. -/
def content (lines : List Line) : List Char := lines.flatMap chars

/-- The length of such a text. -/
def size (lines : List Line) : Nat := (content lines).length

/-- An id as it is written between quotes. -/
def Plain (id : String) : Prop := ∀ c ∈ id.toList, c ≠ '"' ∧ c ≠ '\\' ∧ c ≠ '\n'

instance (id : String) : Decidable (Plain id) :=
  inferInstanceAs (Decidable (∀ c ∈ id.toList, c ≠ '"' ∧ c ≠ '\\' ∧ c ≠ '\n'))

/-- A line as the engine writes it. -/
structure Legible (line : Line) : Prop where
  killer : Plain line.killer
  victim : Plain line.victim
  short : line.render.length < 256

@[simp] theorem content_nil : content [] = [] := rfl

@[simp] theorem content_cons (line : Line) (lines : List Line) :
    content (line :: lines) = chars line ++ content lines := rfl

theorem content_append (lines lines' : List Line) :
    content (lines ++ lines') = content lines ++ content lines' :=
  List.flatMap_append

@[simp] theorem size_nil : size [] = 0 := rfl

theorem size_cons (line : Line) (lines : List Line) :
    size (line :: lines) = (chars line).length + size lines := by
  unfold size
  rw [content_cons, List.length_append]

theorem size_append (lines lines' : List Line) :
    size (lines ++ lines') = size lines + size lines' := by
  unfold size
  rw [content_append, List.length_append]

/-! ## The round trip of a line -/

/-- What stands between the quotes of a line. -/
def fields (line : Line) : List (List Char) :=
  [['{'], "sequence".toList, ':' :: (Nat.toDigits 10 line.sequence ++ [',']), "killer".toList,
    [':'], line.killer.toList, [','], "victim".toList, [':'], line.victim.toList, ['}', '\n']]

theorem chars_eq (line : Line) : chars line = ['"'].intercalate (fields line) := by
  unfold chars Line.render
  simp [fields, List.intercalate, List.intersperse]

theorem not_mem_toDigits {c : Char} (n : Nat) (h : c.isDigit = false) :
    c ∉ Nat.toDigits 10 n := by
  intro hmem
  rw [Nat.isDigit_of_mem_toDigits (by omega) (by omega) hmem] at h
  cases h

theorem not_mem_fields {line : Line} (h : Legible line) {c : Char} (hc : c = '"' ∨ c = '\\') :
    ∀ field ∈ fields line, c ∉ field := by
  have hplain : ∀ id, Plain id → c ∉ id.toList := by
    intro id hid hmem
    obtain ⟨hquote, hescape, -⟩ := hid c hmem
    rcases hc with rfl | rfl
    · exact hquote rfl
    · exact hescape rfl
  have hdigits : c ∉ Nat.toDigits 10 line.sequence := by
    refine not_mem_toDigits _ ?_
    rcases hc with rfl | rfl <;> decide
  have hkiller := hplain _ h.killer
  have hvictim := hplain _ h.victim
  intro field hfield
  simp only [fields, List.mem_cons, List.not_mem_nil, or_false] at hfield
  rcases hfield with rfl | rfl | rfl | rfl | rfl | rfl | rfl | rfl | rfl | rfl | rfl
  case inr.inr.inl => rcases hc with rfl | rfl <;> simp [hdigits]
  case inr.inr.inr.inr.inr.inl => exact hkiller
  case inr.inr.inr.inr.inr.inr.inr.inr.inr.inl => exact hvictim
  all_goals rcases hc with rfl | rfl <;> decide

theorem number_toDigits (n : Nat) :
    number (':' :: (Nat.toDigits 10 n ++ [','])) = some n := by
  have hne : Nat.toDigits 10 n ≠ [] := List.ne_nil_of_length_pos Nat.length_toDigits_pos
  have hall : (Nat.toDigits 10 n).all Char.isDigit = true := by
    rw [List.all_eq_true]
    exact fun c hc => Nat.isDigit_of_mem_toDigits (by omega) (by omega) hc
  simp only [number, List.dropLast_concat, List.getLast?_concat, Nat.ofDigitChars_ten_toDigits]
  exact if_pos ⟨trivial, hne, hall⟩

theorem not_mem_intercalate {sep c : Char} (hsep : c ≠ sep) {parts : List (List Char)}
    (h : ∀ part ∈ parts, c ∉ part) : c ∉ [sep].intercalate parts := by
  induction parts with
  | nil => exact List.not_mem_nil
  | cons part parts ih =>
    have hpart : c ∉ part := h part List.mem_cons_self
    cases parts with
    | nil => simpa [List.intercalate] using hpart
    | cons next rest =>
      have hrest := ih fun p hp => h p (List.mem_cons_of_mem _ hp)
      rw [List.intercalate_cons_of_ne_nil (List.cons_ne_nil _ _)]
      simp only [List.mem_append, List.mem_singleton, not_or]
      exact ⟨⟨hpart, hsep⟩, hrest⟩

/-- What the engine wrote is read back. -/
theorem loads_chars {line : Line} (h : Legible line) : loads (chars line) = some line := by
  have hescape : '\\' ∉ chars line := by
    rw [chars_eq]
    exact not_mem_intercalate (by decide) (not_mem_fields h (.inr rfl))
  have hsplit : (chars line).splitOn '"' = fields line := by
    rw [chars_eq, List.splitOn_intercalate _ (not_mem_fields h (.inl rfl))]
    exact List.cons_ne_nil _ _
  unfold loads
  rw [if_neg hescape, hsplit]
  simp only [fields, number_toDigits]
  simp

/-! ## Reading whole lines -/

/-- A line ends with its only newline. -/
theorem chars_split {line : Line} (h : Legible line) :
    ∃ body, chars line = body ++ ['\n'] ∧ '\n' ∉ body ∧ body.length < 255 := by
  have hsplit : chars line =
      ['"'].intercalate ((fields line).dropLast ++ [['}']]) ++ ['\n'] := by
    simp [chars_eq, fields, List.intercalate, List.intersperse]
  refine ⟨_, hsplit, not_mem_intercalate (by decide) ?_, ?_⟩
  · have hdigits := not_mem_toDigits (c := '\n') line.sequence (by decide)
    have hkiller : '\n' ∉ line.killer.toList := fun hmem => (h.killer _ hmem).2.2 rfl
    have hvictim : '\n' ∉ line.victim.toList := fun hmem => (h.victim _ hmem).2.2 rfl
    simp [fields, hdigits, hkiller, hvictim]
  · have hshort : (chars line).length < 256 := by
      rw [chars, String.length_toList]
      exact h.short
    rw [hsplit, List.length_append, List.length_singleton] at hshort
    omega

theorem readline_whole {body rest : List Char} {limit : Nat} (hbody : '\n' ∉ body)
    (hlimit : body.length < limit) :
    readline limit (body ++ '\n' :: rest) = body ++ ['\n'] := by
  induction body generalizing limit with
  | nil =>
    obtain ⟨n, rfl⟩ : ∃ n, limit = n + 1 := ⟨limit - 1, by simp at hlimit; omega⟩
    rfl
  | cons c body ih =>
    obtain ⟨n, rfl⟩ : ∃ n, limit = n + 1 := ⟨limit - 1, by simp at hlimit; omega⟩
    have hc : c ≠ '\n' := fun heq => hbody (heq ▸ List.mem_cons_self)
    have hrest := ih (fun hmem => hbody (List.mem_cons_of_mem _ hmem))
      (Nat.lt_of_succ_lt_succ hlimit)
    show (if c = '\n' then [c] else c :: readline n (body ++ '\n' :: rest)) = _
    rw [if_neg hc, hrest]
    rfl

/-- A batch with the offset behind each of its lines. -/
def numbered : Nat → List Line → List (Nat × Line)
  | _, [] => []
  | position, line :: lines =>
    (position + (chars line).length, line) :: numbered (position + (chars line).length) lines

theorem readline_rest {rest : List Char} (h : '\n' ∉ rest) (limit : Nat) :
    readline limit rest = rest.take limit := by
  induction rest generalizing limit with
  | nil => cases limit <;> rfl
  | cons c rest ih =>
    cases limit with
    | zero => rfl
    | succ limit =>
      have hc : c ≠ '\n' := fun heq => h (heq ▸ List.mem_cons_self)
      show (if c = '\n' then [c] else c :: readline limit rest) = c :: rest.take limit
      rw [if_neg hc, ih fun hmem => h (List.mem_cons_of_mem _ hmem)]

/-- A part of a line is not read as a line. -/
theorem readLines_rest {rest : List Char} (hrest : '\n' ∉ rest) (hne : rest ≠ [])
    (n position : Nat) : readLines (n + 1) position rest =
      .error (.runtimeError "Incomplete game journal; owner review required.") := by
  have hread : rest.take 512 ≠ [] := by simp [hne]
  have hlast : (rest.take 512).getLast? ≠ some '\n' := fun hlast =>
    hrest (List.mem_of_mem_take (List.mem_of_getLast? hlast))
  simp only [readLines, readline_rest hrest]
  rw [if_neg hread, if_pos hlast]

theorem readLines_content (n position : Nat) {lines : List Line} {rest : List Char}
    (h : ∀ l ∈ lines, Legible l) (hrest : '\n' ∉ rest) :
    readLines n position (content lines ++ rest) =
      if rest = [] ∨ n ≤ lines.length then .ok (numbered position (lines.take n))
      else .error (.runtimeError "Incomplete game journal; owner review required.") := by
  induction n generalizing position lines with
  | zero => rw [if_pos (.inr (Nat.zero_le _))]; rfl
  | succ n ih =>
    cases lines with
    | nil =>
      by_cases hempty : rest = []
      · rw [if_pos (.inl hempty), hempty]
        rfl
      · rw [if_neg (by simp [hempty])]
        exact readLines_rest hrest hempty n position
    | cons line lines =>
      have hline : Legible line := h line List.mem_cons_self
      obtain ⟨body, hchars, hbody, hlength⟩ := chars_split hline
      have hread : readline 512 (content (line :: lines) ++ rest) = chars line := by
        rw [content_cons, hchars, List.append_assoc, List.append_assoc]
        exact readline_whole hbody (by omega)
      have hne : chars line ≠ [] := by rw [hchars]; simp
      have hlast : (chars line).getLast? = some '\n' := by rw [hchars]; simp
      have hdrop : (content (line :: lines) ++ rest).drop (chars line).length =
          content lines ++ rest := by
        rw [content_cons, List.append_assoc, List.drop_left]
      simp only [readLines, hread]
      rw [if_neg hne, if_neg (by simp [hlast]), loads_chars hline]
      simp only [hdrop]
      rw [ih _ fun l hl => h l (List.mem_cons_of_mem _ hl)]
      simp only [List.length_cons, Nat.add_le_add_iff_right]
      split_ifs <;> rfl

/-- At an offset between two lines of a file, the next batch is read. -/
theorem readEvents_content {lines : List Line} {rest : List Char} (h : ∀ l ∈ lines, Legible l)
    (hrest : '\n' ∉ rest) (k : Nat) :
    readEvents (some (content lines ++ rest)) (size (lines.take k)) =
      if rest = [] ∨ batch ≤ (lines.drop k).length then
        .ok (numbered (size (lines.take k)) ((lines.drop k).take batch))
      else .error (.runtimeError "Incomplete game journal; owner review required.") := by
  have hdrop : (content lines ++ rest).drop (size (lines.take k)) =
      content (lines.drop k) ++ rest := by
    have hsplit : content lines = content (lines.take k) ++ content (lines.drop k) := by
      rw [← content_append, List.take_append_drop]
    rw [hsplit, List.append_assoc]
    exact List.drop_left
  simp only [readEvents, hdrop]
  exact readLines_content batch _ (fun l hl => h l (List.mem_of_mem_drop hl)) hrest

/-- A line that was not written whole has no newline. -/
theorem not_mem_take {line : Line} (h : Legible line) {bytes : Nat}
    (hbytes : bytes < line.render.length) : '\n' ∉ (chars line).take bytes := by
  obtain ⟨body, hchars, hbody, -⟩ := chars_split h
  have hlength : (chars line).length = line.render.length := String.length_toList
  rw [hchars, List.length_append, List.length_singleton] at hlength
  rw [hchars, List.take_append_of_le_length (by omega)]
  exact fun hmem => hbody (List.mem_of_mem_take hmem)

end QuakeJs.Server
