import ModBench.Text.Utf8

/-!
Archives and their bytes.  Entries are written one after the other without compression, each behind
a header of its own; a directory of all entries follows, and a closing record ends the archive.
-/

set_option autoImplicit false
set_option relaxedAutoImplicit false

namespace ModBench.Files

structure ArchiveEntry where
  name : String
  body : Option (List UInt8)
  deriving DecidableEq, Repr, Inhabited

namespace Archive

/-- A number in little-endian bytes. -/
def little : Nat → Nat → List UInt8
  | 0, _ => []
  | count + 1, n => UInt8.ofNat n :: little count (n / 256)

def divideBit (remainder : UInt32) : UInt32 :=
  if remainder % 2 = 1 then (remainder >>> 1) ^^^ 0xedb88320 else remainder >>> 1

/-- One byte taken into the checksum's remainder. -/
def divideByte (remainder : UInt32) (b : UInt8) : UInt32 :=
  (List.range 8).foldl (fun r _ => divideBit r) (remainder ^^^ b.toUInt32)

def checksum (body : List UInt8) : UInt32 :=
  body.foldl divideByte 0xffffffff ^^^ 0xffffffff

/-- The first day that an archive can name. -/
def firstDay : Nat := 0x21

/-- The fields that an entry's own header and its record in the directory share. -/
def fields (e : ArchiveEntry) : List UInt8 :=
  let body := e.body.getD []
  little 2 20 ++ little 2 0x800 ++ little 2 0 ++ little 2 0 ++ little 2 firstDay ++
    little 4 (checksum body).toNat ++ little 4 body.length ++ little 4 body.length ++
    little 2 (Text.encodeString e.name).length ++ little 2 0

/-- An entry with its own header. -/
def entry (e : ArchiveEntry) : List UInt8 :=
  little 4 0x04034b50 ++ fields e ++ Text.encodeString e.name ++ e.body.getD []

def record (offset : Nat) (e : ArchiveEntry) : List UInt8 :=
  little 4 0x02014b50 ++ little 2 20 ++ fields e ++ little 2 0 ++ little 2 0 ++ little 2 0 ++
    little 4 (if e.body.isNone then 0x10 else 0) ++ little 4 offset ++ Text.encodeString e.name

def records (offset : Nat) : List ArchiveEntry → List UInt8
  | [] => []
  | e :: rest => record offset e ++ records (offset + (entry e).length) rest

def encode (entries : List ArchiveEntry) : List UInt8 :=
  let bodies := entries.flatMap entry
  let directory := records 0 entries
  bodies ++ directory ++ little 4 0x06054b50 ++ little 2 0 ++ little 2 0 ++
    little 2 entries.length ++ little 2 entries.length ++ little 4 directory.length ++
    little 4 bodies.length ++ little 2 0

end Archive

end ModBench.Files
