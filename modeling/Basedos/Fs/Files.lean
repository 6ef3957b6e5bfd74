import Basedos.Fs.Memfs
import Basedos.Lib.Bytes

/-!
# Files as byte arrays

What the file calls are for, with no heap and no nodes: a file is a string of bytes, a
descriptor in use is a file and a position in it. The names are those of a tree that
does not change; what a path stands for is `Memfs.resolve`. A directory can be opened
and has no bytes, and nothing can be written to it.
-/

namespace Basedos.Fs

open Basedos.Lib Basedos.CLib

/-- A descriptor in use. -/
structure Handle where
  /-- The file, by its inode. -/
  inode : UInt32
  /-- The position. -/
  pos : ℕ
  deriving DecidableEq

/-- The contents of all files, and the descriptors in use. -/
structure Files where
  /-- The bytes of a file. -/
  content : UInt32 → List UInt8
  /-- The descriptors. -/
  handles : Fin 64 → Option Handle

/-- All files empty, no descriptor in use. -/
def Files.initial : Files := ⟨fun _ => [], fun _ => none⟩

/-- The descriptor of that number, if it is in use. -/
def Files.handle (m : Files) (fd : Int32) : Option (Fin 64 × Handle) :=
  (slot fd).bind fun i => (m.handles i).map fun h => (i, h)

/-- The smallest descriptor not in use. -/
def Files.free (m : Files) : Option (Fin 64) := (List.finRange 64).find? fun i => (m.handles i).isNone

/-- The descriptor `i` set. -/
def Files.setHandle (m : Files) (i : Fin 64) (h : Option Handle) : Files :=
  { m with handles := Function.update m.handles i h }

/-- The position `lseek` asks for, from the start or from the position there is. -/
def seekTo (pos : ℕ) (offset whence : Int32) : ℤ :=
  if whence = SEEK_SET then offset.toInt else pos + offset.toInt

/-- One call, on a tree of names. -/
def filesStep (d : Memfs) (m : Files) : Call → Reply × Files
  | .open_ filename _ =>
    match m.free, d.resolve filename.bytes with
    | some i, some c => (⟨Int32.ofNat i.val, none⟩, m.setHandle i (some ⟨c, 0⟩))
    | _, _ => (⟨-1, none⟩, m)
  | .close fd =>
    match m.handle fd with
    | none => (⟨-1, none⟩, m)
    | some (i, _) => (⟨0, none⟩, m.setHandle i none)
  | .read fd buf size =>
    match m.handle fd with
    | none => (⟨-1, some buf⟩, m)
    | some (i, h) =>
      let bs := ((m.content h.inode).drop h.pos).take size.toNat
      (⟨Int32.ofNat bs.length, some (buf.put 0 bs)⟩, m.setHandle i (some ⟨h.inode, h.pos + bs.length⟩))
  | .write fd buf size =>
    match m.handle fd with
    | none => (⟨-1, none⟩, m)
    | some (i, h) =>
      if (d.inode h.inode).isDir then (⟨0, none⟩, m)
      else
        let bs := buf.bytes 0 size.toNat
        let content := Function.update m.content h.inode (patch (m.content h.inode) h.pos bs)
        (⟨Int32.ofNat bs.length, none⟩,
          { m with content := content }.setHandle i (some ⟨h.inode, h.pos + bs.length⟩))
  | .lseek fd offset whence =>
    match m.handle fd with
    | none => (⟨-1, none⟩, m)
    | some (i, h) =>
      (⟨Int32.ofInt (seekTo h.pos offset whence), none⟩,
        m.setHandle i (some ⟨h.inode, (seekTo h.pos offset whence).toNat⟩))

/-- What the refinement asks of a call: files are opened to be read and written, positions stay
below `2 ^ 31`, and are sought from the start or from where they are. -/
def Admissible (m : Files) : Call → Prop
  | .open_ _ flags => flags = O_RDWR
  | .close _ => True
  | .read fd _ size | .write fd _ size => ∀ ih ∈ m.handle fd, ih.2.pos + size.toNat < 2 ^ 31
  | .lseek fd offset whence => ∀ ih ∈ m.handle fd, (whence = SEEK_SET ∨ whence = SEEK_CUR) ∧
      0 ≤ seekTo ih.2.pos offset whence ∧ seekTo ih.2.pos offset whence < 2 ^ 31

instance (m : Files) : ∀ c, Decidable (Admissible m c)
  | .open_ _ _ => inferInstanceAs (Decidable (_ = _))
  | .close _ => inferInstanceAs (Decidable True)
  | .read _ _ _ => inferInstanceAs (Decidable (∀ ih ∈ _, _))
  | .write _ _ _ => inferInstanceAs (Decidable (∀ ih ∈ _, _))
  | .lseek _ _ _ => inferInstanceAs (Decidable (∀ ih ∈ _, _))

end Basedos.Fs
