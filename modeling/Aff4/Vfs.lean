import Aff4.Reader

/-!
# The positioned-read adapter

`Aff4Source` puts a reader behind a mutex and serves positioned reads by seeking
and then reading until the request is filled.  A call holds the lock for its
whole body, so the state of the source is the reader it protects.
-/

namespace Aff4

open Rust

/-- An I/O error with the operation that met it. -/
structure VfsError where
  op : String
  source : IoError
  deriving DecidableEq, Repr

/-- A reader presented as a read-only source of known length. -/
structure Aff4Source where
  inner : Aff4Reader
  len : UInt64

namespace Aff4Source

variable (platform : Platform) (crates : Crates)

/-- Wrap an open reader, recording its virtual disk size. -/
def new (reader : Aff4Reader) : Aff4Source where
  inner := reader
  len := reader.virtualSize

/-- What the filling of a buffer did. -/
structure FillRun where
  result : Outcome VfsError Nat
  reader : Aff4Reader
  buf : Bytes

/-- The `while total < want` loop.  A pass that does not end it reads at least
one byte, so `want` passes are enough. -/
def fill (want : Nat) : Nat → Aff4Reader → Bytes → Nat → FillRun
  | 0, reader, buf, total => { result := .ok total, reader, buf }
  | passes + 1, reader, buf, total =>
      if want ≤ total then { result := .ok total, reader, buf }
      else
        match getRange buf total want with
        | none => { result := .ok total, reader, buf }
        | some slot =>
            let call := reader.read platform crates slot
            let buf := buf.take total ++ call.buf ++ buf.drop want
            match call.result with
            | .ok 0 => { result := .ok total, reader := call.reader, buf }
            | .ok n => fill want passes call.reader buf (total + n)
            | .err source =>
                { result := .err { op := "aff4::read", source }
                  reader := call.reader
                  buf }
            | .panic reason =>
                { result := .panic reason, reader := call.reader, buf }

/-- What a call of `read_at` did. -/
structure ReadAtCall where
  result : Outcome VfsError Nat
  source : Aff4Source
  buf : Bytes

/-- `ImageSource::read_at`. -/
def readAt (self : Aff4Source) (offset : UInt64) (buf : Bytes) : ReadAtCall :=
  let avail := self.len.toNat - offset.toNat
  if avail = 0 then { result := .ok 0, source := self, buf }
  else
    let want := asUsize platform (UInt64.ofNat (min buf.length avail))
    match self.inner.seek platform (.start offset) with
    | (.ok _, reader) =>
        let run := fill platform crates want want reader buf 0
        { result := run.result
          source := { self with inner := run.reader }
          buf := run.buf }
    | (.err source, reader) =>
        { result := .err { op := "aff4::seek", source }
          source := { self with inner := reader }
          buf }
    | (.panic reason, reader) =>
        { result := .panic reason, source := { self with inner := reader }, buf }

end Aff4Source
end Aff4
