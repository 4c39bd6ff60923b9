import Mathlib.Data.List.Basic
import RuleBuild.Configuration

/-!
# Configurations without a fault

A configuration is accepted exactly if its output format is known, its commands name programs and no
two of its runtimes have the same name.
-/
namespace RuleBuild.Configuration

/-- What is required of a configuration that can be read. -/
structure Sound (c : Configuration) : Prop where
  output : ∀ output ∈ c.output, output ∈ outputs
  compiler : ∀ command ∈ c.compiler, Text.isBlankText command.program = false
  converter : ∀ command ∈ c.converter, Text.isBlankText command.program = false
  runtimes : (c.runtimes.map Runtime.name).Nodup

theorem repeated?_eq_none_iff {seen names : List String} :
    repeated? seen names = none ↔ names.Nodup ∧ ∀ name ∈ names, name ∉ seen := by
  induction names generalizing seen with
  | nil => simp [repeated?]
  | cons name names ih =>
      rw [repeated?, List.nodup_cons, List.forall_mem_cons]
      by_cases hseen : name ∈ seen
      · simp [hseen]
      · rw [if_neg hseen, ih]
        constructor
        · rintro ⟨hnodup, hnew⟩
          refine ⟨⟨fun hmem => hnew name hmem List.mem_cons_self, hnodup⟩, hseen, ?_⟩
          exact fun other hmem hother => hnew other hmem (List.mem_cons_of_mem _ hother)
        · rintro ⟨⟨hname, hnodup⟩, _, hnew⟩
          refine ⟨hnodup, fun other hmem hother => ?_⟩
          rcases List.mem_cons.mp hother with rfl | hother
          · exact hname hmem
          · exact hnew other hmem hother

theorem outputFault?_eq_none_iff {c : Configuration} :
    c.outputFault? = none ↔ ∀ output ∈ c.output, output ∈ outputs := by
  simp [outputFault?, Option.bind_eq_none_iff]

theorem commandFault?_eq_none_iff {part : String} {command : Option Command} :
    commandFault? part command = none ↔
      ∀ c ∈ command, Text.isBlankText c.program = false := by
  simp [commandFault?, Option.bind_eq_none_iff]

theorem runtimeFault?_eq_none_iff {c : Configuration} :
    c.runtimeFault? = none ↔ (c.runtimes.map Runtime.name).Nodup := by
  rw [runtimeFault?, Option.map_eq_none_iff, repeated?_eq_none_iff]
  simp

theorem fault?_eq_none_iff {c : Configuration} : c.fault? = none ↔ c.Sound := by
  rw [fault?, Option.or_eq_none_iff, Option.or_eq_none_iff, Option.or_eq_none_iff,
    outputFault?_eq_none_iff, commandFault?_eq_none_iff, commandFault?_eq_none_iff,
    runtimeFault?_eq_none_iff]
  exact ⟨fun ⟨houtput, hcompiler, hconverter, hruntimes⟩ =>
    ⟨houtput, hcompiler, hconverter, hruntimes⟩,
    fun h => ⟨h.output, h.compiler, h.converter, h.runtimes⟩⟩

theorem sound_empty : Sound empty := fault?_eq_none_iff.mp rfl

end RuleBuild.Configuration
