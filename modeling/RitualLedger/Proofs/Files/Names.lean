import RitualLedger.Config.Persistence
import RitualLedger.Proofs.Files.Growth

/-!
# Names at the end of a path

A path that is made of a directory and a name leads to a place of that name. So the configuration
does not stand where the files beside a document store do, whose names tell what they are for.
-/

namespace RitualLedger

/-- The last component of a directory with a name in it is the name. -/
theorem Path.exists_components_join {name : String} (hname : '/' ∉ name.toList)
    (directory : String) : ∃ before, components (join directory name) = before ++ [name] := by
  have hsplit : ∀ cs : List Char,
      ((cs ++ '/' :: name.toList).splitOn '/').map String.ofList =
        (cs.splitOn '/').map String.ofList ++ [name] := by
    intro cs
    rw [List.splitOn_append_cons_self, List.splitOn_eq_singleton hname, List.map_append,
      List.map_singleton, String.ofList_toList]
  rw [join]
  split
  · refine ⟨[], ?_⟩
    rw [components, List.splitOn_eq_singleton hname, List.map_singleton, String.ofList_toList]
    rfl
  split
  · rename_i hends
    have hsuffix : ['/'] <:+ directory.toList := by
      rw [← @String.copy_toSlice directory]
      exact String.Slice.endsWith_string_iff.1 hends
    obtain ⟨cs, hcs⟩ := hsuffix
    refine ⟨(cs.splitOn '/').map String.ofList, ?_⟩
    rw [components, String.toList_append, ← hcs, List.append_assoc]
    exact hsplit cs
  · refine ⟨components directory, ?_⟩
    rw [components, String.toList_append, String.toList_append, List.append_assoc]
    exact hsplit directory.toList

namespace Files

variable {fs : Files} {place p : Place}

/-- A path with a name at its end leads to a place of that name. -/
theorem getLast?_of_walk_join {directory name : String} (hname : '/' ∉ name.toList)
    (hmoves : Path.staysPut name = false) (hdown : (name == "..") = false)
    (h : fs.walk (Path.join directory name) = .ok place) : place.getLast? = some name := by
  obtain ⟨before, hcomponents⟩ := Path.exists_components_join hname directory
  rw [walk] at h
  split at h
  · cases h
  split at h
  · cases h
  split at h
  · cases h
  rw [hcomponents, List.foldlM_append] at h
  obtain ⟨p, -, hlast⟩ := ok_of_bind h
  rw [List.foldlM_cons] at hlast
  obtain ⟨q, hstep, hq⟩ := ok_of_bind hlast
  cases hq
  rw [step] at hstep
  obtain ⟨_, -, hfollow⟩ := ok_of_bind hstep
  split at hfollow
  · cases hfollow
  · cases hfollow
    rw [Path.follow, hmoves, hdown]
    exact List.getLast?_concat

/-- The configuration stands beside no document store that it could be a companion of. -/
theorem configuration_notMem_companionPlaces {directory : String}
    (h : fs.walk (Path.join directory Config.fileName) = .ok p) : p ∉ companionPlaces place := by
  intro hmem
  have hlast := getLast?_of_walk_join (by decide) (by decide) (by decide) h
  obtain ⟨name, hname, rfl⟩ := List.mem_map.1 hmem
  rw [List.getLast?_concat] at hlast
  cases hlast
  have hsuffix : ∀ suffix : String, ¬ suffix.toList <:+ Config.fileName.toList →
      place.getLast?.getD "" ++ suffix ≠ Config.fileName := by
    intro suffix hnot heq
    rw [← heq, String.toList_append] at hnot
    exact hnot (List.suffix_append _ _)
  simp only [companions, List.mem_cons, List.not_mem_nil, or_false] at hname
  rcases hname with heq | heq
  · exact hsuffix "-journal" (by decide) heq.symm
  · exact hsuffix "-wal" (by decide) heq.symm

end Files

end RitualLedger
