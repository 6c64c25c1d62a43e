import HomeKeeper.Lib.CData
import HomeKeeper.Lib.Run

/-!
# `frame/tools.cpp`, `frame/master.cpp` — messages through the FIFO

`tools` fills an `internal_msg_t`, copies it to the front of a zeroed buffer of 10240 bytes and
writes the whole buffer with one `write`. The loop of the master clears its own buffer of 10240
bytes, calls `read` once and takes what it got for a message.

The kernel decides the rest. A `write` longer than `PIPE_BUF` goes into the FIFO in pieces
(`Event.put`), between which other writers may put theirs; a `read` returns what is there, at least
one byte and at most what was asked for (`Event.read`). `State.writers` has for every `tools`
started so far what its `write` has not yet transferred.
-/

namespace HomeKeeper.Frame.Fifo

open CData

/-! ## The message -/

/-- `sizeof (buf)`, in `tools` and in the master. -/
def bufSize : Nat := 10240

def pipeBuf : Nat := 4096

/-- What the switch of the master looks at: `msg->type` and `msg->msg`. -/
structure Command where
  type : Int32
  msg : Bytes
  deriving DecidableEq, Repr

/-- `argv` of `tools`, from `argv[1]` on. -/
structure Args where
  type : Bytes
  destName : Bytes
  msg : Option Bytes

/-- `argv[3]`; it is null with two arguments only, and `"%s"` then prints `(null)`. -/
def Args.text (a : Args) : Bytes := a.msg.getD (ascii "(null)")

/-- The message one call of `tools` sends. -/
def Args.command (a : Args) : Command where
  type := atoi a.type
  msg := snprintfS 512 a.text

/-- The buffer `tools` writes. `reslut`, `masterIp` and what is behind the texts are never set:
`junk` is what the stack held there. -/
def Args.encode (a : Args) (junk : Nat → UInt8) : Bytes :=
  charBuf 512 (ascii "tools") junk
    ++ charBuf 512 a.destName (fun k => junk (512 + k))
    ++ charBuf 512 a.text (fun k => junk (1024 + k))
    ++ (List.range 1024).map (fun k => junk (1536 + k))  -- `reslut`, `masterIp`
    ++ le32 (atoi a.type)
    ++ List.replicate (bufSize - 2564) 0

/-- The master's buffer after `memset` and a `read` of these bytes. -/
def recvBuf (bytes : Bytes) : Bytes := bytes ++ List.replicate (bufSize - bytes.length) 0

/-- `msg = (internal_msg_t*) buf`: `msg->msg` at 1024, `msg->type` at 2560. -/
def decode (buf : Bytes) : Command where
  type := readLe32 (buf.drop 2560)
  msg := cStr (buf.drop 1024)

def ulEnd : Int32 := 1

/-! ## The FIFO -/

structure State where
  writers : List Bytes
  pipe : Bytes
  sent : List Command
  dispatched : List Command
  button : Bool

def State.start : State := ⟨[], [], [], [], false⟩

inductive Event where
  | send (a : Args) (junk : Nat → UInt8)
  | put (i n : Nat)
  | read (n : Nat)

def step (s : State) : Event → Option State
  | .send a junk =>
    some { s with writers := s.writers ++ [a.encode junk], sent := s.sent ++ [a.command] }
  | .put i n =>
    match s.writers[i]? with
    | none => none
    | some w =>
      -- a write of at most `PIPE_BUF` bytes would go in as a whole
      if 0 < n ∧ n ≤ w.length ∧ (bufSize ≤ pipeBuf → n = w.length) then
        some { s with writers := s.writers.set i (w.drop n), pipe := s.pipe ++ w.take n }
      else none
  | .read n =>
    if s.button = false ∧ 0 < n ∧ n ≤ bufSize ∧ n ≤ s.pipe.length then
      let c := decode (recvBuf (s.pipe.take n))
      some { s with
        pipe := s.pipe.drop n
        dispatched := s.dispatched ++ [c]
        button := decide (c.type = ulEnd) }
    else none

/-! ## A buffer that arrives whole -/

theorem length_encode (a : Args) (junk : Nat → UInt8) : (a.encode junk).length = bufSize := by
  simp only [Args.encode, List.length_append, length_charBuf (show 0 < 512 by decide),
    List.length_map, List.length_range, length_le32, List.length_replicate]
  show 512 + 512 + 512 + 1024 + 4 + (10240 - 2564) = 10240
  omega

theorem recvBuf_whole {b : Bytes} (h : b.length = bufSize) : recvBuf b = b := by
  simp [recvBuf, h]

/-- Both ends agree on the layout. -/
theorem decode_encode (a : Args) (junk : Nat → UInt8) : decode (a.encode junk) = a.command := by
  have h512 (s : Bytes) (junk : Nat → UInt8) : (charBuf 512 s junk).length = 512 :=
    length_charBuf (by decide) s junk
  have htype : (a.encode junk).drop 2560
      = le32 (atoi a.type) ++ List.replicate (bufSize - 2564) 0 := by
    unfold Args.encode
    rw [List.append_assoc _ (le32 _)]
    apply List.drop_left'
    simp only [List.length_append, h512, List.length_map, List.length_range]
  have hmsg : (a.encode junk).drop 1024
      = charBuf 512 a.text (fun k => junk (1024 + k))
        ++ ((List.range 1024).map (fun k => junk (1536 + k))
        ++ (le32 (atoi a.type) ++ List.replicate (bufSize - 2564) 0)) := by
    unfold Args.encode
    rw [List.append_assoc _ (le32 _), List.append_assoc _ (List.map _ _),
      List.append_assoc _ (charBuf 512 a.text _)]
    apply List.drop_left'
    simp only [List.length_append, h512]
  -- the text ends inside its own field, the type is the four bytes after `masterIp`
  have htext : cStr ((a.encode junk).drop 1024) = snprintfS 512 a.text := by
    rw [hmsg, cStr_append_of_mem (zero_mem_charBuf 512 a.text _), cStr_charBuf]
  unfold decode
  rw [htext, htype, readLe32_le32_append]
  rfl

end HomeKeeper.Frame.Fifo
