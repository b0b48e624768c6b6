import Codex.Text

/-! # Absolute paths: `AbsolutePathBuf` of `utils/absolute-path/src/lib.rs` off Windows, as lists of names -/

namespace Codex

open Codex.Text List

@[ext] structure AbsolutePathBuf where
  names : List Text
deriving DecidableEq

/-- The directories of the process that relative paths and `~` are resolved against. -/
structure Host where
  homeDirectory : Option Text
  currentDir : Option Text

namespace AbsolutePathBuf

def pushName (names : List Text) (name : Text) : List Text :=
  if name = [] ∨ name = ['.'] then names
  else if name = ['.', '.'] then names.dropLast
  else names ++ [name]

/-- `normalize_path` of an absolute path. -/
def normalize (path : Text) : AbsolutePathBuf := ⟨(path.splitOn '/').foldl pushName []⟩

section

variable (host : Host) (path : Text)

def maybeExpandHomeDirectory : Text :=
  match path, host.homeDirectory with
  | ['~'], some home => home
  | '~' :: '/' :: rest, some home => home ++ '/' :: rest.dropWhile (· = '/')
  | path, _ => path

/-- A relative path is resolved against the current directory, when that is known. -/
def fromAbsolutePath : Option AbsolutePathBuf :=
  let expanded := maybeExpandHomeDirectory host path
  if expanded.head? = some '/' then some (normalize expanded)
  else host.currentDir.map fun dir => normalize (dir ++ '/' :: expanded)

def fileName (path : AbsolutePathBuf) : Option Text := path.names.getLast?

def fromAbsolutePathChecked : Option AbsolutePathBuf :=
  let expanded := maybeExpandHomeDirectory host path
  if expanded.head? = some '/' then some (normalize expanded) else none

def resolvePathAgainstBase (base : AbsolutePathBuf) : AbsolutePathBuf :=
  let expanded := maybeExpandHomeDirectory host path
  if expanded.head? = some '/' then normalize expanded
  else ⟨(expanded.splitOn '/').foldl pushName base.names⟩

end

def join (host : Host) (path : AbsolutePathBuf) (name : Text) : AbsolutePathBuf :=
  resolvePathAgainstBase host name path

def toText (path : AbsolutePathBuf) : Text := '/' :: intercalate ['/'] path.names

def startsWith (path base : AbsolutePathBuf) : Bool := base.names.isPrefixOf path.names

variable {host : Host} {path : AbsolutePathBuf}

lemma startsWith_iff : path.startsWith base ↔ base.names <+: path.names :=
  isPrefixOf_iff_prefix

/-! ## Normal paths -/

def NormalName (name : Text) : Prop := name ≠ [] ∧ name ≠ ['.'] ∧ name ≠ ['.', '.'] ∧ '/' ∉ name

def Normal (path : AbsolutePathBuf) : Prop := ∀ name ∈ path.names, NormalName name

lemma pushName_of_normal (h : NormalName name) (names : List Text) :
    pushName names name = names ++ [name] := by
  unfold pushName
  rw [if_neg (by simp [h.1, h.2.1]), if_neg h.2.2.1]

lemma foldl_pushName_of_normal {names : List Text} (h : ∀ name ∈ names, NormalName name) (start : List Text) :
    names.foldl pushName start = start ++ names := by
  induction names generalizing start with
  | nil => simp
  | cons name names ih =>
    rw [foldl_cons, pushName_of_normal (h name (by simp)), ih fun n hn => h n (by simp [hn])]
    simp

lemma foldl_pushName_normal {names : List Text} (hsl : ∀ name ∈ names, '/' ∉ name)
    (hs : ∀ name ∈ start, NormalName name) : ∀ name ∈ names.foldl pushName start, NormalName name := by
  induction names generalizing start with
  | nil => exact hs
  | cons name names ih => ?_
  refine ih (fun n hn => hsl n (by simp [hn])) ?_
  unfold pushName
  split
  · exact hs
  split
  · exact fun n hn => hs n (mem_of_mem_dropLast hn)
  intro n hn
  rcases mem_append.mp hn with hin | hin
  · exact hs n hin
  obtain rfl := mem_singleton.mp hin
  rename_i hno hd
  exact ⟨fun h => hno (.inl h), fun h => hno (.inr h), hd, hsl n (by simp)⟩

lemma separator_not_mem_piece {s piece : Text} (h : piece ∈ s.splitOn separator) :
    separator ∉ piece := by
  induction s generalizing piece with
  | nil =>
    obtain rfl := mem_singleton.mp h
    simp
  | cons ch s ih => ?_
  rw [splitOn_cons_eq_if_modifyHead] at h
  split at h
  · rcases mem_cons.mp h with rfl | hin
    · simp
    · exact ih hin
  rename_i hch
  obtain ⟨first, rest, heq⟩ := exists_cons_of_ne_nil (splitOn_ne_nil separator s)
  rw [heq, modifyHead_cons] at h
  rcases mem_cons.mp h with rfl | hin
  · intro hm
    rcases mem_cons.mp hm with rfl | hin
    · simp at hch
    · exact ih (heq ▸ mem_cons_self) hin
  · exact ih (heq ▸ mem_cons_of_mem _ hin)

lemma normalize_normal (path : Text) : (normalize path).Normal :=
  foldl_pushName_normal (fun _ hn => separator_not_mem_piece hn) (by simp)

lemma fromAbsolutePathChecked_normal {path : Text} (h : fromAbsolutePathChecked host path = some absolute) :
    absolute.Normal := by
  unfold fromAbsolutePathChecked at h
  simp only at h
  split at h
  · cases h
    exact normalize_normal _
  · simp at h

lemma normalize_toText (h : path.Normal) : normalize path.toText = path := by
  obtain ⟨names⟩ := path
  unfold normalize toText
  rw [splitOn_cons_eq_if_modifyHead, if_pos (by simp), foldl_cons]
  rcases names with _ | ⟨name, names⟩
  · rfl
  rw [splitOn_intercalate '/' (fun n hn => (h n hn).2.2.2) (by simp)]
  exact congrArg _ (foldl_pushName_of_normal h [])

lemma fromAbsolutePathChecked_toText (h : path.Normal) :
    fromAbsolutePathChecked host path.toText = some path := by
  have he : maybeExpandHomeDirectory host path.toText = path.toText := rfl
  unfold fromAbsolutePathChecked
  simp only [he]
  rw [if_pos (show path.toText.head? = some '/' from rfl), normalize_toText h]

lemma join_names (hn : NormalName name) (ht : name.head? ≠ some '~') :
    (path.join host name).names = path.names ++ [name] := by
  have he : maybeExpandHomeDirectory host name = name := by
    unfold maybeExpandHomeDirectory
    split <;> simp_all
  have hh : name.head? ≠ some '/' := by
    intro hh
    exact hn.2.2.2 (mem_of_mem_head? hh)
  unfold join resolvePathAgainstBase
  simp only [he]
  rw [if_neg hh, splitOn_eq_singleton hn.2.2.2]
  exact pushName_of_normal hn path.names

end AbsolutePathBuf

end Codex
