import PeachOS.Spec.System

/-!
# One call with many open descriptors

An invariant of the system is a property of the volume and a property of every open descriptor. A call
keeps it if the driver function does.
-/

namespace PeachOS.Fat

structure SysInv (V : Volume → Prop) (D : FatFileDescriptor → Prop) (s : Sys) : Prop where
  vol : V s.vol
  files : ∀ f, some f ∈ s.files → D f.desc

variable {V : Volume → Prop} {D : FatFileDescriptor → Prop}

theorem sysInv_start (v : Volume) (hv : V v) : SysInv V D (Sys.start v) :=
  ⟨hv, fun f hf => by simp [Sys.start] at hf⟩

theorem file_mem (s : Sys) (fd : Nat) (f : OpenFile) (h : s.file fd = some f) : some f ∈ s.files := by
  unfold Sys.file at h
  rw [Option.join_eq_some_iff] at h
  exact List.mem_of_getElem? h

theorem sysInv_set (s : Sys) (h : SysInv V D s) (fd : Nat) (o : Option OpenFile)
    (ho : ∀ f, o = some f → D f.desc) : ∀ f, some f ∈ s.files.set fd o → D f.desc := by
  intro f hf
  rcases List.mem_or_eq_of_mem_set hf with hf | hf
  · exact h.files f hf
  · exact ho f hf.symm

theorem sysInv_step
    (hopen : ∀ v part kzalloc v' res, V v → fat16_open_write v part kzalloc = (v', res) →
      V v' ∧ ∀ desc, res = .ok desc → D desc)
    (hdelete : ∀ v part, V v → V (fat16_delete v part).2) (s : Sys) (c : Call) (h : SysInv V D s)
    (hwrite : ∀ fd size nmemb buf f, c = .write fd size nmemb buf → s.file fd = some f → D f.desc →
      V (fat16_write s.vol f.desc size nmemb buf).2.1 ∧
        D (fat16_write s.vol f.desc size nmemb buf).2.2) :
    SysInv V D (s.step c) := by
  cases c with
  | open_ part next kzalloc =>
    obtain ⟨v', res, heq⟩ : ∃ v' res, fat16_open_write s.vol part kzalloc = (v', res) := ⟨_, _, rfl⟩
    obtain ⟨hv, hd⟩ := hopen _ _ _ v' res h.vol heq
    simp only [Sys.step, fat16_open, heq]
    cases res with
    | error e => exact ⟨hv, h.files⟩
    | ok desc =>
      refine ⟨hv, fun f hf => ?_⟩
      rcases List.mem_append.mp hf with hf | hf
      · exact h.files f hf
      · rw [List.mem_singleton, Option.some.injEq] at hf
        subst hf
        exact hd desc rfl
  | write fd size nmemb buf =>
    cases hfile : s.file fd with
    | none =>
      simp only [Sys.step, hfile]
      exact h
    | some f =>
      obtain ⟨hv, hd⟩ := hwrite fd size nmemb buf f rfl hfile (h.files f (file_mem s fd f hfile))
      simp only [Sys.step, hfile]
      refine ⟨hv, sysInv_set s h fd _ (fun g hg => ?_)⟩
      rw [Option.some.injEq] at hg
      subst hg
      exact hd
  | close fd => exact ⟨h.vol, sysInv_set s h fd none (fun g hg => by cases hg)⟩
  | delete part => exact ⟨hdelete _ part h.vol, h.files⟩

end PeachOS.Fat
