import HomeKeeper.Notify.EmailSender
import Mathlib.Algebra.Group.Int.Defs

/-!
# `EmailSender::CreatMessage` — the attachments of a mail

The files are read in pieces of 54 bytes into a C buffer, which is appended to a string as a C
string. So a NUL byte cuts its piece short. And the string, `file`, is declared before the loop over
the attachments and never emptied: every attachment begins with all that were read before it.

mimetic is outside of this development: a message is the fields and texts that are given to it, and
an attachment has the bytes that go into its Base64 encoder.
-/

namespace HomeKeeper.Notify

open CData

/-! ## The message -/

structure MimePart where
  header : List Bytes
  /-- The bytes from `file.begin ()` to `file.end ()`. -/
  file : Bytes
  deriving DecidableEq, Repr

structure MimeMessage where
  fromField : Bytes
  toField : Bytes
  subject : Bytes
  content : Bytes
  parts : List MimePart
  deriving DecidableEq, Repr

/-- The recipients, with commas between them. -/
def EmailSender.toField (m : EmailSender) : Bytes := (m.recvMail.intersperse (ascii ",")).flatten

/-! ## Reading a file -/

/-- `len / 54 + 1` with `int len = ftell (pt)`, as the `size_t` it is compared with. -/
def rounds (content : Bytes) : Nat :=
  (((Int32.ofNat content.length).toInt.tdiv 54 + 1) % 2 ^ 64).toNat

/-- `char buf[55]` after `memset` and `fread`. -/
def fileBuf (rest : Bytes) : Bytes :=
  rest.take 54 ++ List.replicate (55 - (rest.take 54).length) 0

/-- The loop over the pieces: how many rounds are left, what is left of the file, and `file`. -/
def readLoop : Nat → Bytes → Bytes → Bytes
  | 0, _, file => file
  | n + 1, rest, file => readLoop n (rest.drop 54) (file ++ cStr (fileBuf rest))

/-- The loop over the attachments. `fs` are the files that can be opened. -/
def attach (fs : Bytes → Option Bytes) : List Bytes → Bytes → List MimePart
  | [], _ => []
  | name :: names, file =>
    match fs name with
    -- logged, and `continue`
    | none => attach fs names file
    | some content =>
      let file := readLoop (rounds content) content file
      { header :=
          [ascii "Content-Type: application/octet-stream; name=" ++ name,
           ascii "Content-Disposition : attachment; filename=" ++ name,
           ascii "Content-Transfer-Encoding: base64"]
        file := file } :: attach fs names file

def creatMessage (fs : Bytes → Option Bytes) (m : EmailSender) : MimeMessage where
  fromField := m.sendMail
  toField := m.toField
  subject := m.subject
  content := m.content
  parts := attach fs m.attachMent []

/-! ## One file -/

theorem rounds_eq {content : Bytes} (h : content.length < 2 ^ 31) :
    rounds content = content.length / 54 + 1 := by
  unfold rounds
  rw [Int32.toInt_ofNat_of_lt h, Int.tdiv_eq_ediv_of_nonneg (Int.natCast_nonneg _)]
  omega

theorem cStr_fileBuf (rest : Bytes) : cStr (fileBuf rest) = cStr (rest.take 54) := by
  have hlen : (rest.take 54).length ≤ 54 := List.length_take_le 54 rest
  unfold fileBuf
  rw [show 55 - (rest.take 54).length = 54 - (rest.take 54).length + 1 by omega,
    List.replicate_succ, cStr_append_cons_zero]

/-- A text goes through the pieces unchanged. -/
theorem readLoop_text {n : Nat} {rest file : Bytes} (h0 : (0 : UInt8) ∉ rest)
    (hn : rest.length ≤ 54 * n) : readLoop n rest file = file ++ rest := by
  induction n generalizing rest file with
  | zero =>
    have : rest = [] := List.length_eq_zero_iff.mp (by omega)
    rw [this, List.append_nil]
    rfl
  | succ n ih =>
    have hpiece : cStr (fileBuf rest) = rest.take 54 := by
      rw [cStr_fileBuf]
      exact cStr_eq_self fun h => h0 (List.mem_of_mem_take h)
    rw [readLoop, hpiece, ih (fun h => h0 (List.mem_of_mem_drop h)), List.append_assoc,
      List.take_append_drop]
    rw [List.length_drop]
    omega

/-- No NUL byte ever gets into `file`. -/
theorem zero_notMem_readLoop {n : Nat} {rest file : Bytes} (h : (0 : UInt8) ∉ file) :
    (0 : UInt8) ∉ readLoop n rest file := by
  induction n generalizing rest file with
  | zero => exact h
  | succ n ih =>
    apply ih
    rw [List.mem_append, not_or]
    exact ⟨h, zero_notMem_cStr _⟩

/-- What an attachment needs to come out right: it is a text, and nothing was read before. -/
theorem readLoop_eq_iff {content file : Bytes} (hlen : content.length < 2 ^ 31)
    (hfile : (0 : UInt8) ∉ file) :
    readLoop (rounds content) content file = content ↔ (0 : UInt8) ∉ content ∧ file = [] := by
  have htext (h0 : (0 : UInt8) ∉ content) :
      readLoop (rounds content) content file = file ++ content := by
    apply readLoop_text h0
    rw [rounds_eq hlen]
    omega
  constructor
  · intro h
    have h0 : (0 : UInt8) ∉ content := by
      rw [← h]
      exact zero_notMem_readLoop hfile
    rw [htext h0] at h
    exact ⟨h0, List.append_left_eq_self.mp h⟩
  · rintro ⟨h0, rfl⟩
    exact htext h0

/-! ## All attachments -/

theorem attach_eq_iff {fs : Bytes → Option Bytes} {names contents : List Bytes} {file : Bytes}
    (hread : names.map fs = contents.map some) (hlen : ∀ c ∈ contents, c.length < 2 ^ 31)
    (hfile : (0 : UInt8) ∉ file) :
    (attach fs names file).map (·.file) = contents
      ↔ (∀ c ∈ contents, (0 : UInt8) ∉ c) ∧ (contents ≠ [] → file = [])
        ∧ ∀ c ∈ contents.dropLast, c = [] := by
  induction contents generalizing names file with
  | nil =>
    obtain rfl : names = [] := List.map_eq_nil_iff.mp hread
    simp [attach]
  | cons c contents ih =>
    cases names with
    | nil => simp at hread
    | cons name names =>
      rw [List.map_cons, List.map_cons, List.cons.injEq] at hread
      obtain ⟨hname, hread⟩ := hread
      have hc := hlen c List.mem_cons_self
      have hnext : (0 : UInt8) ∉ readLoop (rounds c) c file := zero_notMem_readLoop hfile
      simp only [attach, hname, List.map_cons, List.cons.injEq]
      rw [ih hread (fun x hx => hlen x (List.mem_cons_of_mem c hx)) hnext,
        readLoop_eq_iff hc hfile]
      have hfirst (h0 : (0 : UInt8) ∉ c) : readLoop (rounds c) c [] = c :=
        (readLoop_eq_iff hc (by simp)).mpr ⟨h0, rfl⟩
      constructor
      · rintro ⟨⟨h0, rfl⟩, hrest, hempty, hlast⟩
        -- the string now holds `c`, and the next attachment wants it empty
        rw [hfirst h0] at hempty
        refine ⟨?_, fun _ => rfl, ?_⟩
        · intro x hx
          rcases List.mem_cons.mp hx with rfl | hx
          · exact h0
          · exact hrest x hx
        · intro x hx
          cases contents with
          | nil => cases hx
          | cons d contents =>
            rcases List.mem_cons.mp hx with rfl | hx
            · exact hempty (by simp)
            · exact hlast x hx
      · rintro ⟨hall, hempty, hlast⟩
        have h0 := hall c List.mem_cons_self
        obtain rfl := hempty (by simp)
        refine ⟨⟨h0, rfl⟩, fun x hx => hall x (List.mem_cons_of_mem c hx), ?_, ?_⟩
        · intro hne
          rw [hfirst h0]
          apply hlast
          obtain ⟨d, contents, rfl⟩ := List.exists_cons_of_ne_nil hne
          exact List.mem_cons_self
        · intro x hx
          apply hlast
          cases contents with
          | nil => cases hx
          | cons d contents => exact List.mem_cons_of_mem c hx

/-- **When the attachments are the files.** For readable files the bytes given to the encoder for
each attachment are the content of its file, if and only if no file has a NUL byte and all files but
the last are empty. -/
theorem attachments_exact_iff (m : EmailSender) (fs : Bytes → Option Bytes) (contents : List Bytes)
    (hread : m.attachMent.map fs = contents.map some)
    (hlen : ∀ c ∈ contents, c.length < 2 ^ 31) :
    (creatMessage fs m).parts.map (·.file) = contents
      ↔ (∀ c ∈ contents, (0 : UInt8) ∉ c) ∧ ∀ c ∈ contents.dropLast, c = [] := by
  show (attach fs m.attachMent []).map (·.file) = contents ↔ _
  rw [attach_eq_iff hread hlen (by simp)]
  simp

/-- Two short text files, an empty one, and one that is read in two pieces. -/
def textFiles (path : Bytes) : Option Bytes :=
  if path = ascii "a.txt" then some (ascii "a")
  else if path = ascii "b.txt" then some (ascii "b")
  else if path = ascii "empty.txt" then some []
  else if path = ascii "long.txt" then some (List.replicate 60 65)
  else none

theorem attachments_exact_iff_long_text :
    (creatMessage textFiles ((EmailSender.new.addAttachment (ascii "empty.txt")).addAttachment
        (ascii "long.txt"))).parts.map (·.file)
      = [[], List.replicate 60 65] := by
  have h := attachments_exact_iff ((EmailSender.new.addAttachment (ascii "empty.txt")).addAttachment
    (ascii "long.txt")) textFiles [[], List.replicate 60 65] (by decide) (by decide)
  exact h.mpr (by decide)

/-- The second attachment carries the first file over. -/
theorem second_attachment_not_exact :
    ¬ ∀ (m : EmailSender) (fs : Bytes → Option Bytes) (contents : List Bytes),
      m.attachMent.map fs = contents.map some → (∀ c ∈ contents, c.length < 2 ^ 31) →
      (creatMessage fs m).parts.map (·.file) = contents := by
  intro h
  have htwo := h ((EmailSender.new.addAttachment (ascii "a.txt")).addAttachment (ascii "b.txt"))
    textFiles [ascii "a", ascii "b"] (by decide) (by decide)
  exact absurd htwo (by decide)

end HomeKeeper.Notify
