import AttributeLint.Proofs.Analysis.Exactness

/-!
# Places — where an expected diagnostic lies

Every diagnostic of a rule is said about one usage in one of the files that were added: it lies in
that file, either where a scan of the string of the usage found a violation, or at the target of the
usage.
-/

namespace AttributeLint.Expected

variable {rule : Rule} {file : FileId} {path : String} {u : Usage} {d : Diagnostic}

theorem exists_violation_of_mem_ofUsage (hd : d ∈ ofUsage rule file path u) :
    ∃ o, Extraction.occurrence? (file, u) = some o ∧ ∃ v ∈ Scan.scan rule o,
      d.location = place file path v.position := by
  rw [ofUsage, reaching_eq] at hd
  split at hd
  · split at hd
    · rename_i binding text hc
      obtain ⟨p, hp, rfl⟩ := List.mem_map.mp hd
      let o : Occurrence := { file, targetStart := u.targetStart, text }
      have hscan : Scan.toViolation rule o p ∈ Scan.scan rule o := by
        rw [Scan.scan_eq_map]
        exact List.mem_map_of_mem hp
      refine ⟨o, ?_, _, hscan, ?_⟩
      · rw [Extraction.occurrence?, Usage.singleString, hc]
      · obtain ⟨⟨c, index⟩, number⟩ := p
        rw [character, Scan.toViolation]
        cases rule.positionMode <;> rfl
    · cases hd
  · cases hd

theorem location_of_mem_ofMalformedUsage (hd : d ∈ ofMalformedUsage rule file path u) :
    d.location = place file path u.targetStart := by
  rw [ofMalformedUsage] at hd
  split at hd
  · split at hd
    · cases hd
    · cases List.mem_singleton.mp hd
      rfl
  · cases hd

/-- What is said about usages is said about one of them in one of the files. -/
theorem mem_overUsages_iff {id : Nat} {additions : List Addition}
    {say : FileId → String → Usage → List Diagnostic} :
    d ∈ overUsages id additions say ↔
      ∃ a i, (a, i) ∈ additions.zipIdx ∧ ∃ u ∈ a.usages, d ∈ say ⟨id, i⟩ a.path u := by
  simp only [overUsages, List.mem_flatMap, Prod.exists]

theorem exists_of_mem_ofRule {id : Nat} {additions : List Addition}
    (hd : d ∈ ofRule id additions rule) :
    ∃ a i, (a, i) ∈ additions.zipIdx ∧ ∃ u ∈ a.usages,
      d ∈ ofUsage rule ⟨id, i⟩ a.path u ∨ d ∈ ofMalformedUsage rule ⟨id, i⟩ a.path u := by
  rcases List.mem_append.mp hd with hd | hd
  · obtain ⟨a, i, ha, u, hu, hd⟩ := mem_overUsages_iff.mp hd
    exact ⟨a, i, ha, u, hu, .inl hd⟩
  · split at hd
    · cases hd
    · obtain ⟨a, i, ha, u, hu, hd⟩ := mem_overUsages_iff.mp hd
      exact ⟨a, i, ha, u, hu, .inr hd⟩

end AttributeLint.Expected
