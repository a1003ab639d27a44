/-!
The read side of a byte stream, behind a buffer. A read of the stream gives a part of the bytes that
have come; after the last of them comes a read fault, if one is pending, and then the end of the
stream, if it has been reached. A stream that has none of these to give has its reader wait.
-/

namespace ContextServer

/-- `buffer` is what the latest read gave and is not used up, `unread` what no read has given yet.
`sizes` are the most bytes that each coming read gives; the last of them holds on, and without any
a read gives all that it has room for. -/
structure Source where
  buffer : List UInt8
  unread : List UInt8
  sizes : List Nat
  fault : Option String
  ended : Bool
  deriving DecidableEq, Repr

namespace Source

def empty : Source := ⟨[], [], [], none, false⟩

/-- The most bytes that one read puts into the buffer. -/
def capacity : Nat := 65536

def arrive (s : Source) (bs : List UInt8) : Source := { s with unread := s.unread ++ bs }

def hangUp (s : Source) : Source := { s with ended := true }

def failNext (s : Source) (message : String) : Source := { s with fault := some message }

/-- All bytes that have not been used up. -/
def bytes (s : Source) : List UInt8 := s.buffer ++ s.unread

/-- How many bytes have not been used up. -/
def size (s : Source) : Nat := s.buffer.length + s.unread.length

@[simp] theorem length_bytes (s : Source) : s.bytes.length = s.size := List.length_append

/-- How many bytes the next read gives at most when there is room for some number of them. -/
def share (room : Nat) : List Nat → Nat
  | [] => room
  | n :: _ => min n room

/-- The sizes of the reads after the next one. -/
def laterSizes : List Nat → List Nat
  | _ :: n :: r => n :: r
  | sizes => sizes

/-- The stream after a read with so much room, its buffer having been used up. A read gives one
byte at least, and there is none where all bytes have been read. -/
def refill (s : Source) (room : Nat) : Option Source :=
  match s.unread with
  | [] => none
  | b :: bs =>
    let n := share room s.sizes - 1
    some { s with buffer := b :: bs.take n, unread := bs.drop n, sizes := laterSizes s.sizes }

theorem bytes_refill {s t : Source} {room : Nat} (h : s.refill room = some t) :
    t.bytes = s.unread := by
  unfold refill at h
  split at h
  · simp at h
  · simp_all [← Option.some_inj.mp h, bytes]

theorem size_refill {s t : Source} {room : Nat} (h : s.refill room = some t) :
    t.size = s.unread.length := by
  rw [← length_bytes, bytes_refill h]

theorem unread_refill_lt {s t : Source} {room : Nat} (h : s.refill room = some t) :
    t.unread.length < s.unread.length := by
  unfold refill at h
  split at h
  · simp at h
  · rename_i hu
    simp only [← Option.some_inj.mp h, hu, List.length_drop, List.length_cons]
    omega

/-- What comes after the last byte. -/
inductive Rest
  | wait
  | fault (message : String) (s : Source)
  | ended (s : Source)

/-- What a stream whose bytes are all used up has to give. -/
def rest (s : Source) : Rest :=
  match s.fault with
  | some m => .fault m { s with buffer := [], unread := [], fault := none }
  | none => if s.ended then .ended { s with buffer := [], unread := [] } else .wait

theorem size_of_rest_ended {s t : Source} (h : s.rest = .ended t) : t.size = 0 := by
  unfold rest at h
  split at h
  · cases h
  · split at h
    · cases h
      rfl
    · cases h

end Source

end ContextServer
