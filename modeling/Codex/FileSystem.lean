import Codex.Program
import Codex.Text

/-!
# File systems

The calls of `ExecutorFileSystem` that patches use, and a file system of text files in memory, without symlinks, in
which any call may fail.
-/

namespace Codex

open Program

inductive ErrorKind where
  | notFound
  | invalidInput
  | other
deriving DecidableEq

structure IoError where
  kind : ErrorKind
  message : Text
deriving DecidableEq

structure FileMetadata where
  isDirectory : Bool
  isFile : Bool
  isSymlink : Bool
deriving DecidableEq

/-- The calls on paths `P`, over the state `D` of the disk. -/
structure ExecutorFileSystem (P D : Type) where
  getMetadata : P → Program D IoError FileMetadata
  readFileText : P → Program D IoError Text
  writeFile : P → Text → Program D IoError Unit
  createDirectory : P → Program D IoError Unit
  remove : P → Program D IoError Unit

/-! ## Text files in memory -/

structure Memory (K : Type) where
  files : K → Option Text
  calls : Nat := 0

structure Fault where
  error : IoError
  left : Option Text
  deleted : Bool

def notFoundError : IoError := ⟨.notFound, "No such file or directory"⟩

/-- A failing read says `NotFound` only of a file that is not there. -/
def Fault.readError (f : Fault) (present : Bool) : IoError :=
  if present && f.error.kind = .notFound then { f.error with kind := .other } else f.error

namespace Memory

variable {P K : Type}

def call {α : Type} (faults : Nat → Option Fault) (f : Option Fault → (K → Option Text) →
    Except IoError α × (K → Option Text)) : Program (Memory K) IoError α :=
  ofStep fun m => ((f (faults m.calls) m.files).1, ⟨(f (faults m.calls) m.files).2, m.calls + 1⟩)

lemma spec_call {f : Option Fault → (K → Option Text) → Except IoError α × (K → Option Text)}
    {ok : α → Memory K → Prop} (h : match f (faults m.calls) m.files with
      | (.ok a, files) => ok a ⟨files, m.calls + 1⟩
      | (.error e, files) => err e ⟨files, m.calls + 1⟩) :
    Spec (call faults f) m ok err := by
  rw [Spec, call, exec_ofStep]
  revert h
  rcases f (faults m.calls) m.files with ⟨_ | _, files⟩ <;> exact id

lemma readError_notFound {f : Fault} {o : Option Text} (h : (f.readError o.isSome).kind = .notFound) :
    o = none := by
  unfold Fault.readError at h
  split at h
  · simp at h
  rename_i hk
  cases o with
  | none => rfl
  | some t => simp [h] at hk

variable [DecidableEq K]

/-- Regular files under the keys of their paths. The `n`-th call fails when `faults n` is a fault. -/
def fileSystem (key : P → K) (faults : Nat → Option Fault) : ExecutorFileSystem P (Memory K) where
  getMetadata path := call faults fun
    | some f, files => (.error (f.readError (files (key path)).isSome), files)
    | none, files =>
      if (files (key path)).isSome then
        (.ok { isDirectory := false, isFile := true, isSymlink := false }, files)
      else (.error notFoundError, files)
  readFileText path := call faults fun
    | some f, files => (.error (f.readError (files (key path)).isSome), files)
    | none, files => match files (key path) with
      | some text => (.ok text, files)
      | none => (.error notFoundError, files)
  writeFile path text := call faults fun
    | some f, files => (.error f.error, Function.update files (key path) f.left)
    | none, files => (.ok (), Function.update files (key path) (some text))
  createDirectory _ := call faults fun
    | some f, files => (.error f.error, files)
    | none, files => (.ok (), files)
  remove path := call faults fun
    | some f, files => (.error f.error, if f.deleted then Function.update files (key path) none else files)
    | none, files => match files (key path) with
      | some _ => (.ok (), Function.update files (key path) none)
      | none => (.error notFoundError, files)

variable {key : P → K} {faults : Nat → Option Fault} {m : Memory K} {path : P}

lemma spec_getMetadata : Spec ((fileSystem key faults).getMetadata path) m
    (fun _ n => n.files = m.files ∧ (m.files (key path)).isSome)
    (fun e n => n.files = m.files ∧ (e.kind = .notFound → m.files (key path) = none)) := by
  simp only [fileSystem]
  refine spec_call ?_
  cases faults m.calls with
  | some f => exact ⟨rfl, readError_notFound⟩
  | none => cases h : m.files (key path) <;> simp [h]

lemma spec_readFileText : Spec ((fileSystem key faults).readFileText path) m
    (fun text n => n.files = m.files ∧ m.files (key path) = some text)
    (fun e n => n.files = m.files ∧ (e.kind = .notFound → m.files (key path) = none)) := by
  simp only [fileSystem]
  refine spec_call ?_
  cases faults m.calls with
  | some f => exact ⟨rfl, readError_notFound⟩
  | none => cases h : m.files (key path) <;> simp [h]

lemma spec_writeFile (text : Text) : Spec ((fileSystem key faults).writeFile path text) m
    (fun _ n => n.files = Function.update m.files (key path) (some text))
    (fun _ n => ∃ left, n.files = Function.update m.files (key path) left) := by
  simp only [fileSystem]
  refine spec_call ?_
  cases faults m.calls with
  | some f => exact ⟨f.left, rfl⟩
  | none => rfl

lemma spec_createDirectory : Spec ((fileSystem key faults).createDirectory path) m
    (fun _ n => n.files = m.files) (fun _ n => n.files = m.files) := by
  simp only [fileSystem]
  refine spec_call ?_
  cases faults m.calls <;> rfl

lemma spec_remove : Spec ((fileSystem key faults).remove path) m
    (fun _ n => n.files = Function.update m.files (key path) none)
    (fun _ n => n.files = m.files ∨ n.files = Function.update m.files (key path) none) := by
  simp only [fileSystem]
  refine spec_call ?_
  cases faults m.calls with
  | some f => cases h : f.deleted <;> simp [h]
  | none => cases h : m.files (key path) <;> simp [h]

/-! ## Without faults -/

def noFaults : Nat → Option Fault := fun _ => none

lemma spec_getMetadata_noFaults : Spec ((fileSystem key noFaults).getMetadata path) m
    (fun metadata n => n.files = m.files ∧ (m.files (key path)).isSome ∧ metadata.isDirectory = false)
    (fun _ n => n.files = m.files ∧ m.files (key path) = none) := by
  simp only [fileSystem]
  refine spec_call ?_
  cases h : m.files (key path) <;> simp [noFaults, h]

lemma spec_readFileText_noFaults : Spec ((fileSystem key noFaults).readFileText path) m
    (fun text n => n.files = m.files ∧ m.files (key path) = some text)
    (fun _ n => n.files = m.files ∧ m.files (key path) = none) := by
  simp only [fileSystem]
  refine spec_call ?_
  cases h : m.files (key path) <;> simp [noFaults, h]

lemma spec_writeFile_noFaults (text : Text) : Spec ((fileSystem key noFaults).writeFile path text) m
    (fun _ n => n.files = Function.update m.files (key path) (some text)) (fun _ _ => False) := by
  simp only [fileSystem]
  refine spec_call ?_
  simp [noFaults]

lemma spec_remove_noFaults : Spec ((fileSystem key noFaults).remove path) m
    (fun _ n => (m.files (key path)).isSome ∧ n.files = Function.update m.files (key path) none)
    (fun _ n => n.files = m.files ∧ m.files (key path) = none) := by
  simp only [fileSystem]
  refine spec_call ?_
  cases h : m.files (key path) <;> simp [noFaults, h]

end Memory

end Codex
