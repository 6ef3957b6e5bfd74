import Basedos.Fs.Vfs
import Basedos.Lib.Pieces

/-!
# Path lookup, piece by piece

The loop of `vfs_open` moves a pointer along the path and looks a component up in
each round. Here it is shown to be what it is for: the path is split at every `/`,
one empty last piece is dropped, and the pieces are looked up one after the other
(`vfsOpenLoop_eq`). This holds whatever the file systems do; in particular the flags
make no difference, and the lookup of a longer path goes on from where that of the
shorter one ends (`vfsOpen_append`).
-/

namespace Basedos.Fs

open Basedos.Lib Basedos.CLib Basedos.Kernel

universe u

variable {D : Type u} (K : Drivers D)

/-- Look the pieces up one after the other, each in the node the one before gave. -/
def lookupPieces (w : World D) (current : Ptr) : List (List UInt8) → Ptr × World D
  | [] => (current, w)
  | p :: ps =>
    if p.length ≥ 256 then (none, w)
    else
      match vfsFinddir K w current p with
      | (none, w) => (none, w)
      | (some next, w) => lookupPieces w (some next) ps

variable {K} {w : World D} {current : Ptr}

/-- A lookup that fails stays failed, one that succeeds is gone on from. -/
theorem lookupPieces_append {ps : List (List UInt8)} (qs : List (List UInt8)) (hps : ps ≠ []) :
    lookupPieces K w current (ps ++ qs) =
      match lookupPieces K w current ps with
      | (none, w) => (none, w)
      | (some next, w) => lookupPieces K w (some next) qs := by
  induction ps generalizing w current with
  | nil => exact absurd rfl hps
  | cons p ps ih =>
    simp only [List.cons_append, lookupPieces]
    split
    · rfl
    · rcases vfsFinddir K w current p with ⟨_ | next, w'⟩
      · rfl
      · simp only
        cases ps with
        | nil => rfl
        | cons q ps => exact ih (List.cons_ne_nil _ _)

theorem vfsOpenLoop_nil (flags : UInt32) : vfsOpenLoop K flags w current [] = (current, w) := by
  rw [vfsOpenLoop]; rfl

/-- A round on a path with no `/` left: the rest is the last component. -/
theorem vfsOpenLoop_last (flags : UInt32) {path : List UInt8} (hpath : path ≠ []) (h : slash ∉ path) :
    vfsOpenLoop K flags w current path = lookupPieces K w current [path] := by
  have hc := strchr_eq_none.mpr h
  have hlen : componentLength path = path.length := by simp only [componentLength, hc]
  have hadv : advance path path.length = [] := by simp [advance]
  rw [vfsOpenLoop, dif_neg hpath]
  simp only [hlen, hadv, List.take_length, lookupPieces, ite_self]
  split
  · rfl
  · rcases vfsFinddir K w current path with ⟨_ | next, w'⟩
    · rfl
    · exact vfsOpenLoop_nil flags

/-- A round on a path with a `/`: the component before it, and then the rest after it. -/
theorem vfsOpenLoop_slash (flags : UInt32) {c : List UInt8} (rest : List UInt8) (h : slash ∉ c) :
    vfsOpenLoop K flags w current (c ++ slash :: rest) =
      if c.length ≥ 256 then (none, w)
      else
        match vfsFinddir K w current c with
        | (none, w) => (none, w)
        | (some next, w) => vfsOpenLoop K flags w (some next) rest := by
  have hne : c ++ slash :: rest ≠ [] := by simp
  have hlen : componentLength (c ++ slash :: rest) = c.length := by
    simp only [componentLength, strchr_append_cons h, List.length_append, List.length_cons]
    omega
  have hadv : advance (c ++ slash :: rest) c.length = rest := by simp [advance]
  rw [vfsOpenLoop, dif_neg hne]
  rcases hfound : vfsFinddir K w current c with ⟨_ | next, w'⟩
  · simp only [hlen, List.take_left, ite_self, hfound]
  · simp only [hlen, List.take_left, hfound, hadv]

/-- **The loop looks up the pieces of the path.** -/
theorem vfsOpenLoop_eq {w : World D} {current : Ptr} (flags : UInt32) (path : List UInt8) :
    vfsOpenLoop K flags w current path = lookupPieces K w current (pieces slash path) := by
  by_cases hm : slash ∈ path
  · obtain ⟨c, rest, rfl, hc⟩ := List.eq_append_cons_of_mem hm
    rw [vfsOpenLoop_slash flags rest hc, pieces_append_cons hc, lookupPieces]
    split
    · rfl
    · rcases vfsFinddir K w current c with ⟨_ | next, w'⟩
      · rfl
      · exact vfsOpenLoop_eq flags rest
  · by_cases hpath : path = []
    · subst hpath
      rw [vfsOpenLoop_nil, pieces_nil]
      rfl
    · rw [vfsOpenLoop_last flags hpath hm, pieces_of_not_mem hpath hm]
termination_by path.length
decreasing_by subst_vars; simp; omega

variable {fsRoot : Ptr}

/-- An absolute path: the pieces of what follows the first `/`, from the root. -/
theorem vfsOpen_absolute (path : List UInt8) (flags : UInt32) :
    vfsOpen K w fsRoot (slash :: path) flags = lookupPieces K w fsRoot (pieces slash path) := by
  simp only [vfsOpen, if_true]
  split
  · next h => subst h; rw [pieces_nil]; rfl
  · exact vfsOpenLoop_eq flags path

/-- A path that does not begin with `/` does not resolve. -/
theorem vfsOpen_relative {filename : List UInt8} (h : filename.head? ≠ some slash) (flags : UInt32) :
    vfsOpen K w fsRoot filename flags = (none, w) := by
  cases filename with
  | nil => rfl
  | cons c path =>
    have hc : c ≠ slash := fun hc => h (by rw [hc]; rfl)
    simp only [vfsOpen, if_neg hc]

/-- The flags make no difference to the lookup. -/
theorem vfsOpen_flags (filename : List UInt8) (flags flags' : UInt32) :
    vfsOpen K w fsRoot filename flags = vfsOpen K w fsRoot filename flags' := by
  cases filename with
  | nil => rfl
  | cons c path =>
    simp only [vfsOpen]
    split
    · split
      · rfl
      · rw [vfsOpenLoop_eq, vfsOpenLoop_eq]
    · rfl

/-- **Joined paths**: the lookup of `p/q` goes on with the pieces of `q` from where the lookup
of `p` ends, for an absolute `p` that does not end in `/`. -/
theorem vfsOpen_append {p q : List UInt8} (hp : p.head? = some slash) (hend : p.getLast? ≠ some slash)
    (flags : UInt32) :
    vfsOpen K w fsRoot (p ++ slash :: q) flags =
      match vfsOpen K w fsRoot p flags with
      | (none, w) => (none, w)
      | (some node, w) => lookupPieces K w (some node) (pieces slash q) := by
  cases p with
  | nil => cases hp
  | cons c t =>
    simp only [List.head?_cons, Option.some.injEq] at hp
    subst hp
    have ht : t ≠ [] := by
      rintro rfl
      simp at hend
    have htend : t.getLast? ≠ some slash := by rwa [List.getLast?_cons_of_ne_nil ht] at hend
    rw [List.cons_append, vfsOpen_absolute, vfsOpen_absolute, pieces_append ht htend,
      lookupPieces_append _ (pieces_ne_nil ht)]

/-- The path `q` below `p`. -/
def below (p q : List UInt8) : List UInt8 := if p.getLast? = some slash then p ++ q else p ++ slash :: q

/-- A path below one that resolves is looked up from where that one ends. -/
theorem vfsOpen_below {p : List UInt8} {flags : UInt32} {node : UInt32} {w' : World D}
    (hp : vfsOpen K w fsRoot p flags = (some node, w')) (q : List UInt8) :
    vfsOpen K w fsRoot (below p q) flags = lookupPieces K w' (some node) (pieces slash q) := by
  have habs : p.head? = some slash := by
    by_contra habs
    rw [vfsOpen_relative habs] at hp
    cases hp
  unfold below
  split
  · next hend =>
    obtain ⟨t, rfl⟩ := List.head?_eq_some_iff.mp habs
    rcases List.eq_nil_or_concat t with rfl | ⟨t, c, rfl⟩
    · rw [vfsOpen_absolute, pieces_nil] at hp
      rw [List.cons_append, List.nil_append, vfsOpen_absolute]
      cases hp
      rfl
    · rw [List.getLast?_cons_of_ne_nil (by simp)] at hend
      simp only [List.concat_eq_append, List.getLast?_append, List.getLast?_singleton, Option.some_or,
        Option.some.injEq] at hend
      subst hend
      rw [List.concat_eq_append, vfsOpen_absolute, pieces_append_sep, pieces_nil, List.append_nil] at hp
      rw [List.cons_append, vfsOpen_absolute, List.concat_eq_append, List.append_assoc,
        List.singleton_append, pieces_append_sep, lookupPieces_append _ (splitOn_ne_nil _ _), hp]
  · next hend => rw [vfsOpen_append habs hend, hp]

end Basedos.Fs
