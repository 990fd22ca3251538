import Thubo.Lib.Exchange
import Thubo.Lib.Runs
import Thubo.RingBuf.Spsc

/-!
# Ring buffers with several writers or readers

All configurations share one implementation: a writer handle may push, book
and commit at its priorities, and a reader handle may pull.  A step is one
access to a shared word or to a slot, so the handles may be interleaved in
every order between the accesses of an operation.
-/

namespace Thubo
namespace RingBuf

/-! ## The configurations -/

inductive Kind where
  /-- One writer and one reader. -/
  | spsc
  /-- One writer for each priority and one reader. -/
  | mpsc
  /-- One writer and one reader for each priority. -/
  | spmc
deriving DecidableEq, Repr

/-- The writer handle of a priority; a single handle goes by `high`. -/
def Kind.writer (kind : Kind) (p : Priority) : Priority :=
  match kind with
  | .mpsc => p
  | _ => .high

/-- The reader handle of a priority; a single handle goes by `high`. -/
def Kind.reader (kind : Kind) (p : Priority) : Priority :=
  match kind with
  | .spmc => p
  | _ => .high

/-- Where an update of a shared index stands. -/
inductive Update where
  | store
  | load
  /-- In the loop of `AtomicIdx::update`, with the word loaded last. -/
  | swap (old : Idx)
deriving DecidableEq, Repr

namespace Update

/-- `update::s` of a handle that alone changes the word. -/
def s : Update :=
  .store

/-- `update::m` of handles that share the word. -/
def m : Update :=
  .load

/--
One access of an update to the word: what the word is afterwards, and how the
update goes on unless it is done.  A weak exchange may fail for no reason.
-/
def access (update : Update) (p : Priority) (idx word : Idx)
    (spurious : Bool) : Idx × Option Update :=
  match update with
  | .store => (idx, none)
  | .load => (word, some (.swap word))
  | .swap old =>
      if word = old ∧ spurious = false then
        (old.merge p idx, none)
      else
        (word, some (.swap word))

end Update

def Kind.writerUpdate (kind : Kind) : Update :=
  match kind with
  | .mpsc => .m
  | _ => .s

def Kind.readerUpdate (kind : Kind) : Update :=
  match kind with
  | .spmc => .m
  | _ => .s

/-! ## The handles -/

/-- Where a writer stands in push, book or commit. -/
inductive WriterPoint (α : Type) where
  | idle
  /-- The cached index shows no room: it is loaded next. -/
  | load (p : Priority) (t : α) (books : Bool)
  | write (p : Priority) (t : α) (books : Bool)
  /-- The shared BOOKED flag is set next. -/
  | mark (p : Priority)
  | update (p : Priority) (update : Update)
deriving DecidableEq, Repr

/-- Where a reader stands in pull. -/
inductive ReaderPoint where
  | idle
  /-- The cached index shows no element: it is loaded next. -/
  | load (p : Priority) (rest : List Priority)
  | take (p : Priority)
  | update (p : Priority) (update : Update)
deriving DecidableEq, Repr

structure Writer (α : Type) where
  handle : RingBufferWriter
  point : WriterPoint α

structure Reader where
  handle : RingBufferReader
  point : ReaderPoint

/-- The writer goes on to write once its copy shows room. -/
def RingBufferWriter.start {α : Type} (handle : RingBufferWriter)
    (capacity : BitVec 8) (p : Priority) (t : α) (books : Bool) :
    WriterPoint α :=
  if RingBuffer.isFull handle.cachedIdxR handle.localIdxW p capacity then
    .load p t books
  else
    .write p t books

/-- The reader tries some priorities until one shows an element. -/
def RingBufferReader.scan (handle : RingBufferReader) :
    List Priority → ReaderPoint
  | [] => .idle
  | p :: rest =>
      if RingBuffer.isEmpty handle.localIdxR handle.cachedIdxW p then
        .load p rest
      else
        .take p

/-! ## The steps -/

/-- A ring buffer with all its handles and what has happened so far. -/
structure Shared (α : Type) where
  kind : Kind
  inner : RingBuffer α
  writers : Priority → Writer α
  readers : Priority → Reader
  log : Priority → Exchange.Log α

namespace Shared

variable {α : Type}

def new (kind : Kind) (exponent : Nat) (small : exponent ≤ 7) :
    Shared α where
  kind := kind
  inner := RingBuffer.new exponent small
  writers _ := ⟨⟨Idx.new, Idx.new⟩, .idle⟩
  readers _ := ⟨⟨Idx.new, Idx.new⟩, .idle⟩
  log _ := ⟨[], [], none, [], 0⟩

def setWriter (ring : Shared α) (h : Priority) (writer : Writer α) :
    Shared α :=
  { ring with writers := Priority.update ring.writers h writer }

def setReader (ring : Shared α) (h : Priority) (reader : Reader) :
    Shared α :=
  { ring with readers := Priority.update ring.readers h reader }

def setIdxW (ring : Shared α) (word : Idx) : Shared α :=
  { ring with inner := { ring.inner with idxW := word } }

def setIdxR (ring : Shared α) (word : Idx) : Shared α :=
  { ring with inner := { ring.inner with idxR := word } }

def setLog (ring : Shared α) (p : Priority) (log : Exchange.Log α) :
    Shared α :=
  { ring with log := Priority.update ring.log p log }

def push (ring : Shared α) (p : Priority) (t : α) :
    Option (Shared α) :=
  let h := ring.kind.writer p
  let writer := ring.writers h
  match writer.point with
  | .idle =>
      some (ring.setWriter h
        { writer with
          point := writer.handle.start ring.inner.capacity p t false })
  | _ => none

/-- A booking at a booked priority gives the element back at once. -/
def book (ring : Shared α) (p : Priority) (t : α) :
    Option (Shared α) :=
  let h := ring.kind.writer p
  let writer := ring.writers h
  match writer.point with
  | .idle =>
      if writer.handle.localIdxW.booked p then
        some ring
      else
        some (ring.setWriter h
          { writer with
            point := writer.handle.start ring.inner.capacity p t true })
  | _ => none

/-- The element booked at a priority is counted. -/
def count (ring : Shared α) (h p : Priority) : Shared α :=
  let handle := (ring.writers h).handle
  let localIdxW := (handle.localIdxW.unset (Idx.flag p)).increment p
  ring.setWriter h
    { handle := { handle with localIdxW := localIdxW }
      point := .update p ring.kind.writerUpdate }

/-- A commit through a peek, which shows nothing without a booking. -/
def commit (ring : Shared α) (p : Priority) : Option (Shared α) :=
  let h := ring.kind.writer p
  let writer := ring.writers h
  match writer.point with
  | .idle =>
      if writer.handle.localIdxW.booked p then
        some (ring.count h p)
      else
        none
  | _ => none

/-- The copy of the read index is loaded and tested again. -/
def loadIdxR (ring : Shared α) (h p : Priority) (t : α) (books : Bool) :
    Shared α :=
  let writer := ring.writers h
  let handle := { writer.handle with cachedIdxR := ring.inner.idxR }
  let full := RingBuffer.isFull handle.cachedIdxR handle.localIdxW p
    ring.inner.capacity
  ring.setWriter h
    { handle := handle
      point := if full then .idle else .write p t books }

/-- The element is written: from now on the ring owns it. -/
def putElem (ring : Shared α) (p : Priority) (idx : Idx) (t : α) :
    Shared α :=
  let log := ring.log p
  let written : Shared α :=
    { ring with inner := ring.inner.setElem p idx (some t) }
  written.setLog p
    { log with handed := log.handed ++ [t], pending := some t }

def writeElem (ring : Shared α) (h p : Priority) (t : α) (books : Bool) :
    Shared α :=
  let handle := (ring.writers h).handle
  let written := ring.putElem p handle.localIdxW t
  if books then
    written.setWriter h
      { handle :=
          { handle with localIdxW := handle.localIdxW.set (Idx.flag p) }
        point := .mark p }
  else
    written.setWriter h
      { handle :=
          { handle with localIdxW := handle.localIdxW.increment p }
        point := .update p ring.kind.writerUpdate }

/-- The fetch-or of `book`. -/
def markBooked (ring : Shared α) (h p : Priority) : Shared α :=
  (ring.setIdxW (ring.inner.idxW.set (Idx.flag p))).setWriter h
    { ring.writers h with point := .idle }

/-- The word now shows the element counted last. -/
def publish (ring : Shared α) (h p : Priority) (word : Idx) :
    Shared α :=
  let log := ring.log p
  ((ring.setIdxW word).setLog p
    { log with
      pushed := log.pushed ++ log.pending.toList
      pending := none }).setWriter h
    { ring.writers h with point := .idle }

def updateIdxW (ring : Shared α) (h p : Priority) (update : Update)
    (spurious : Bool) : Shared α :=
  let writer := ring.writers h
  match update.access p writer.handle.localIdxW ring.inner.idxW
    spurious with
  | (_, some next) =>
      ring.setWriter h { writer with point := .update p next }
  | (word, none) => ring.publish h p word

/-- The next access of a writer. -/
def writerStep (ring : Shared α) (h : Priority) (spurious : Bool) :
    Option (Shared α) :=
  match (ring.writers h).point with
  | .idle => none
  | .load p t books => some (ring.loadIdxR h p t books)
  | .write p t books => some (ring.writeElem h p t books)
  | .mark p => some (ring.markBooked h p)
  | .update p update => some (ring.updateIdxW h p update spurious)

/-- Start to pull at the first of some priorities with an element. -/
def pullFrom (ring : Shared α) (h : Priority)
    (priorities : List Priority) : Option (Shared α) :=
  let reader := ring.readers h
  match reader.point with
  | .idle =>
      some (ring.setReader h
        { reader with point := reader.handle.scan priorities })
  | _ => none

/-- A reader of all priorities pulls at the first with an element. -/
def pull (ring : Shared α) : Option (Shared α) :=
  match ring.kind with
  | .spmc => none
  | _ => ring.pullFrom .high Priority.ALL

def pullPriority (ring : Shared α) (p : Priority) : Option (Shared α) :=
  ring.pullFrom (ring.kind.reader p) [p]

/-- The copy of the write index is loaded and tested again. -/
def loadIdxW (ring : Shared α) (h p : Priority) (rest : List Priority) :
    Shared α :=
  let reader := ring.readers h
  let handle := { reader.handle with cachedIdxW := ring.inner.idxW }
  let empty := RingBuffer.isEmpty handle.localIdxR handle.cachedIdxW p
  ring.setReader h
    { handle := handle
      point := if empty then handle.scan rest else .take p }

/-- The element is taken: from now on the caller owns it. -/
def removeElem (ring : Shared α) (p : Priority) (idx : Idx) : Shared α :=
  let log := ring.log p
  let taken : Shared α :=
    { ring with inner := ring.inner.setElem p idx none }
  taken.setLog p
    { log with pulled := log.pulled ++ [ring.inner.getElem p idx] }

def takeElem (ring : Shared α) (h p : Priority) : Shared α :=
  let handle := (ring.readers h).handle
  (ring.removeElem p handle.localIdxR).setReader h
    { handle :=
        { handle with localIdxR := handle.localIdxR.increment p }
      point := .update p ring.kind.readerUpdate }

/-- The word now shows the slot emptied last. -/
def release (ring : Shared α) (h p : Priority) (word : Idx) :
    Shared α :=
  let log := ring.log p
  ((ring.setIdxR word).setLog p
    { log with released := log.released + 1 }).setReader h
    { ring.readers h with point := .idle }

def updateIdxR (ring : Shared α) (h p : Priority) (update : Update)
    (spurious : Bool) : Shared α :=
  let reader := ring.readers h
  match update.access p reader.handle.localIdxR ring.inner.idxR
    spurious with
  | (_, some next) =>
      ring.setReader h { reader with point := .update p next }
  | (word, none) => ring.release h p word

/-- The next access of a reader. -/
def readerStep (ring : Shared α) (h : Priority) (spurious : Bool) :
    Option (Shared α) :=
  match (ring.readers h).point with
  | .idle => none
  | .load p rest => some (ring.loadIdxW h p rest)
  | .take p => some (ring.takeElem h p)
  | .update p update => some (ring.updateIdxR h p update spurious)

inductive Action (α : Type) where
  | push (p : Priority) (t : α)
  | book (p : Priority) (t : α)
  | commit (p : Priority)
  | writer (h : Priority) (spurious : Bool)
  | pull
  | pullPriority (p : Priority)
  | reader (h : Priority) (spurious : Bool)
deriving DecidableEq, Repr

def step (ring : Shared α) : Action α → Option (Shared α)
  | .push p t => ring.push p t
  | .book p t => ring.book p t
  | .commit p => ring.commit p
  | .writer h spurious => ring.writerStep h spurious
  | .pull => ring.pull
  | .pullPriority p => ring.pullPriority p
  | .reader h spurious => ring.readerStep h spurious

end Shared
end RingBuf
end Thubo
