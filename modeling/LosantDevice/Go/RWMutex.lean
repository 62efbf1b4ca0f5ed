import Mathlib.Data.List.Basic

/-!
# `sync.RWMutex`

A lock that one goroutine holds for writing or any number of them hold for reading. It remembers
who holds it. An operation that would have to wait gives nothing.
-/
namespace Go

/-- Nobody reads while somebody writes. -/
structure RWMutex (ι : Type) where
  writer : Option ι
  readers : List ι
  exclusive : writer = none ∨ readers = []

namespace RWMutex
variable {ι : Type} {m m' : RWMutex ι} {i j : ι}

def free : RWMutex ι := ⟨none,[],.inl rfl⟩

def lock (m : RWMutex ι) (i : ι) : Option (RWMutex ι) :=
  match m.writer,m.readers with
  | none,[] => some ⟨some i,[],.inr rfl⟩
  | _,_ => none

def unlock [DecidableEq ι] (m : RWMutex ι) (i : ι) : Option (RWMutex ι) :=
  if m.writer = some i then some free else none

def rLock (m : RWMutex ι) (i : ι) : Option (RWMutex ι) :=
  match m.writer with
  | none => some ⟨none,i::m.readers,.inl rfl⟩
  | some _ => none

def rUnlock [DecidableEq ι] (m : RWMutex ι) (i : ι) : Option (RWMutex ι) :=
  if m.writer = none ∧ i ∈ m.readers then some ⟨none,m.readers.erase i,.inl rfl⟩ else none

theorem no_reader (hw : m.writer = some i) : j ∉ m.readers := by
  rcases m.exclusive with h | h
  · rw [hw] at h
    cases h
  · simp [h]

theorem no_writer (hj : j ∈ m.readers) : m.writer = none :=
  m.exclusive.resolve_right (List.ne_nil_of_mem hj)

theorem lock_eq_some (h : m.lock i = some m') :
    m.writer = none ∧ m.readers = [] ∧ m'.writer = some i ∧ m'.readers = [] := by
  unfold lock at h
  split at h
  · rename_i hw hr
    cases h
    exact ⟨hw,hr,rfl,rfl⟩
  · cases h

theorem unlock_eq_some [DecidableEq ι] (h : m.unlock i = some m') :
    m.writer = some i ∧ m' = free := by
  unfold unlock at h
  split at h
  · rename_i hw
    cases h
    exact ⟨hw,rfl⟩
  · cases h

theorem rLock_eq_some (h : m.rLock i = some m') :
    m.writer = none ∧ m'.writer = none ∧ m'.readers = i::m.readers := by
  unfold rLock at h
  split at h
  · rename_i hw
    cases h
    exact ⟨hw,rfl,rfl⟩
  · cases h

theorem rUnlock_eq_some [DecidableEq ι] (h : m.rUnlock i = some m') :
    m.writer = none ∧ i ∈ m.readers ∧ m'.writer = none ∧ m'.readers = m.readers.erase i := by
  unfold rUnlock at h
  split at h
  · rename_i hm
    cases h
    exact ⟨hm.1,hm.2,rfl,rfl⟩
  · cases h

end RWMutex
end Go
