import SchemaStitch.Conflict
import SchemaStitch.Proofs.Bare

/-! # Conflicts in closed form

    Conflicts are found by going over the members of a type one by one and keeping a table of
    signatures.  Seen as a whole, the table lists for every name the signatures with which the
    name is declared, each where it comes first (`SignatureTable.ofMembers_eq`), so a conflict
    is a name with at least two of them (`Block.conflicts_eq`, `mem_disagreements`).

    Neither descriptions nor members that repeat an earlier one count
    (`disagreements_withoutDescription`, `disagreements_firsts`).  Where there is no conflict,
    members of one name have one signature, so a member repeats an earlier one as soon as it
    has its name (`firsts_key_eq`). -/

namespace SchemaStitch

variable {members : List Member} {type : Text}

/-! ## Signatures by name -/

/-- The signatures with which members declare a name, each where it comes first. -/
def signaturesOf (members : List Member) (name : Text) : List Text :=
  firsts id [] ((members.filter fun member => member.name = name).map Member.signature)

/-- The conflicts among members of one type: one for each name that is declared with at least
    two signatures, where the names come first. -/
def disagreements (type : Text) (members : List Member) : List Conflict :=
  ((firsts id [] (members.map Member.name)).map fun name =>
    ⟨type, name, signaturesOf members name⟩).filter fun conflict => 2 ≤ conflict.signatures.length

/-- A signature is added unless it was found before. -/
theorem addSignature_firsts (signature : Text) (found : List Text) :
    addSignature signature (firsts id [] found) = firsts id [] (found ++ [signature]) := by
  rw [addSignature, firsts_concat]
  by_cases h : signature ∈ found
  · rw [if_pos (List.contains_iff_mem.mpr (mem_firsts.mpr h)), if_pos h]
  · rw [if_neg fun hc => h (mem_firsts.mp (List.contains_iff_mem.mp hc)), if_neg h]

/-- A further member adds its signature to those of its name. -/
theorem signaturesOf_concat (members : List Member) (member : Member) (name : Text) :
    signaturesOf (members ++ [member]) name
      = if name = member.name then addSignature member.signature (signaturesOf members name)
        else signaturesOf members name := by
  rw [signaturesOf, List.filter_append, List.map_append]
  by_cases h : name = member.name
  · have hone : [member].filter (fun m => m.name = name) = [member] := by simp [h]
    rw [if_pos h, hone, signaturesOf, addSignature_firsts]
    rfl
  · have hnone : [member].filter (fun m => m.name = name) = [] := by simp [Ne.symm h]
    rw [if_neg h, hnone, List.map_nil, List.append_nil, signaturesOf]

/-- A name without members has no signatures. -/
theorem signaturesOf_eq_nil {name : Text} (h : name ∉ members.map Member.name) :
    signaturesOf members name = [] := by
  have hnone : members.filter (fun member => member.name = name) = [] := by
    rw [List.filter_eq_nil_iff]
    intro member hmember hname
    exact h (List.mem_map.mpr ⟨member, hmember, of_decide_eq_true hname⟩)
  rw [signaturesOf, hnone]
  rfl

/-- The table of signatures has each name where it comes first, with all its signatures. -/
theorem SignatureTable.ofMembers_eq (members : List Member) :
    SignatureTable.ofMembers members
      = Keyed.tabulate (firsts id [] (members.map Member.name)) (signaturesOf members) := by
  induction members using List.reverseRecOn with
  | nil => rfl
  | append_singleton members member ih =>
      rw [ofMembers] at ih ⊢
      rw [List.foldl_append, List.foldl_cons, List.foldl_nil, ih, add, Keyed.alter_firsts,
        List.map_append, List.map_singleton]
      refine List.map_congr_left fun name _ => congrArg (Prod.mk name) ?_
      beta_reduce
      rw [signaturesOf_concat]
      by_cases h : name = member.name
      · rw [if_pos h, if_pos h, h]
        by_cases hmem : member.name ∈ members.map Member.name
        · rw [if_pos hmem, Option.getD_some]
        · -- a name that is new starts with no signature
          rw [if_neg hmem, Option.getD_none, signaturesOf_eq_nil hmem]
      · rw [if_neg h, if_neg h]

/-- The conflicts of a type are those among its members. -/
theorem Block.conflicts_eq (block : Block) :
    block.conflicts = disagreements block.name (Entry.nodes block.members) := by
  rw [conflicts, SignatureTable.ofMembers_eq, Keyed.tabulate, disagreements, List.filterMap_map,
    List.filter_map, ← List.filterMap_eq_filter, List.map_filterMap]
  refine List.filterMap_congr fun name _ => ?_
  show (if 2 ≤ (signaturesOf (Entry.nodes block.members) name).length then _ else none)
    = ((Option.guard _ name).map _)
  by_cases h : 2 ≤ (signaturesOf (Entry.nodes block.members) name).length
  · rw [if_pos h, Option.guard, if_pos (by simpa using h)]
    rfl
  · rw [if_neg h, Option.guard, if_neg (by simpa using h)]
    rfl

/-! ## What is a conflict -/

/-- The signatures of a name are those of its members. -/
theorem mem_signaturesOf {name signature : Text} :
    signature ∈ signaturesOf members name
      ↔ ∃ member ∈ members, member.name = name ∧ member.signature = signature := by
  rw [signaturesOf, mem_firsts, List.mem_map]
  constructor
  · rintro ⟨member, hmem, hsignature⟩
    obtain ⟨hmember, hname⟩ := List.mem_filter.mp hmem
    exact ⟨member, hmember, of_decide_eq_true hname, hsignature⟩
  · rintro ⟨member, hmember, hname, hsignature⟩
    exact ⟨member, List.mem_filter.mpr ⟨hmember, decide_eq_true hname⟩, hsignature⟩

/-- There are two signatures for a name iff two members of that name differ in theirs. -/
theorem two_le_length_signaturesOf {name : Text} :
    2 ≤ (signaturesOf members name).length
      ↔ ∃ m ∈ members, ∃ m' ∈ members,
        m.name = name ∧ m'.name = name ∧ m.signature ≠ m'.signature := by
  have hnodup : (signaturesOf members name).Nodup := nodup_firsts
  constructor
  · intro h
    cases hfound : signaturesOf members name with
    | nil => simp [hfound] at h
    | cons first others =>
        cases others with
        | nil => simp [hfound] at h
        | cons second rest =>
            have hfirst : first ∈ signaturesOf members name := by simp [hfound]
            have hsecond : second ∈ signaturesOf members name := by simp [hfound]
            obtain ⟨m, hm, hname, rfl⟩ := mem_signaturesOf.mp hfirst
            obtain ⟨m', hm', hname', rfl⟩ := mem_signaturesOf.mp hsecond
            refine ⟨m, hm, m', hm', hname, hname', ?_⟩
            rw [hfound] at hnodup
            exact List.ne_of_not_mem_cons (List.nodup_cons.mp hnodup).1
  · rintro ⟨m, hm, m', hm', hname, hname', hne⟩
    have hmem := mem_signaturesOf.mpr ⟨m, hm, hname, rfl⟩
    have hmem' := mem_signaturesOf.mpr ⟨m', hm', hname', rfl⟩
    by_contra hfew
    -- a list that is no longer than one cannot hold both
    have hone : (signaturesOf members name).length = 1 :=
      le_antisymm (by omega) (List.length_pos_of_mem hmem)
    obtain ⟨only, honly⟩ := List.length_eq_one_iff.mp hone
    rw [honly, List.mem_singleton] at hmem hmem'
    exact hne (hmem.trans hmem'.symm)

/-- A conflict lists all signatures of a name, and two members of that name differ in theirs. -/
theorem mem_disagreements {conflict : Conflict} :
    conflict ∈ disagreements type members
      ↔ conflict.type = type
        ∧ conflict.signatures = signaturesOf members conflict.member
        ∧ ∃ m ∈ members, ∃ m' ∈ members,
          m.name = conflict.member ∧ m'.name = conflict.member ∧ m.signature ≠ m'.signature := by
  rw [disagreements, List.mem_filter, List.mem_map, decide_eq_true_eq]
  constructor
  · rintro ⟨⟨name, -, rfl⟩, hlength⟩
    exact ⟨rfl, rfl, two_le_length_signaturesOf.mp hlength⟩
  · rintro ⟨rfl, hsignatures, hmembers⟩
    refine ⟨⟨conflict.member, ?_, ?_⟩, ?_⟩
    · obtain ⟨m, hm, -, -, hname, -⟩ := hmembers
      exact mem_firsts.mpr (List.mem_map.mpr ⟨m, hm, hname⟩)
    · rw [← hsignatures]
    · rw [hsignatures]
      exact two_le_length_signaturesOf.mpr hmembers

/-- Members agree exactly if those of one name have one signature. -/
theorem disagreements_eq_nil :
    disagreements type members = []
      ↔ ∀ m ∈ members, ∀ m' ∈ members, m.name = m'.name → m.signature = m'.signature := by
  rw [List.eq_nil_iff_forall_not_mem]
  constructor
  · intro h m hm m' hm' hname
    by_contra hne
    exact h ⟨type, m.name, signaturesOf members m.name⟩
      (mem_disagreements.mpr ⟨rfl, rfl, m, hm, m', hm', rfl, hname.symm, hne⟩)
  · intro h conflict hconflict
    obtain ⟨-, -, m, hm, m', hm', hname, hname', hne⟩ := mem_disagreements.mp hconflict
    exact hne (h m hm m' hm' (hname.trans hname'.symm))

/-! ## What does not count -/

theorem name_withoutDescription (member : Member) :
    member.withoutDescription.name = member.name := by
  cases member <;> rfl

/-- A signature does not depend on the member's own description. -/
theorem signature_withoutDescription (member : Member) :
    member.withoutDescription.signature = member.signature := by
  cases member <;> rfl

/-- The descriptions of members do not count. -/
theorem disagreements_withoutDescription (type : Text) (members : List Member) :
    disagreements type (members.map Member.withoutDescription) = disagreements type members := by
  have hnames : (members.map Member.withoutDescription).map Member.name
      = members.map Member.name := by
    rw [List.map_map]
    exact List.map_congr_left fun member _ => name_withoutDescription member
  have hsignatures : signaturesOf (members.map Member.withoutDescription)
      = signaturesOf members := by
    funext name
    rw [signaturesOf, List.filter_map, List.map_map, signaturesOf]
    have hname : (fun m : Member => decide (m.name = name)) ∘ Member.withoutDescription
        = fun m => decide (m.name = name) := by
      funext m
      show decide (m.withoutDescription.name = name) = _
      rw [name_withoutDescription]
    rw [hname]
    exact congrArg _ (List.map_congr_left fun member _ => signature_withoutDescription member)
  rw [disagreements, hnames, hsignatures, disagreements]

/-- Members that repeat an earlier one do not count. -/
theorem disagreements_firsts (type : Text) (members : List Member) :
    disagreements type (firsts Member.key [] members) = disagreements type members := by
  have hnames : firsts id [] ((firsts Member.key [] members).map Member.name)
      = firsts id [] (members.map Member.name) := by
    rw [firsts_map, firsts_map]
    exact congrArg _ (firsts_firsts_coarse (fun a b hab => congrArg Prod.fst hab)
      fun _ _ h => by cases h)
  have hsignatures : signaturesOf (firsts Member.key [] members) = signaturesOf members := by
    funext name
    have hfilter : (firsts Member.key [] members).filter (fun member => member.name = name)
        = firsts Member.key [] (members.filter fun member => member.name = name) :=
      filter_firsts fun a b hab => congrArg (fun key => decide (key.1 = name)) hab
    rw [signaturesOf, hfilter, signaturesOf, firsts_map, firsts_map]
    exact congrArg _ (firsts_firsts_coarse (fun a b hab => congrArg Prod.snd hab)
      fun _ _ h => by cases h)
  rw [disagreements, hnames, hsignatures, disagreements]

/-- Without conflicts, a member repeats an earlier one iff it has its name. -/
theorem firsts_key_eq (h : disagreements type members = []) :
    firsts Member.key [] members = firsts Member.name [] members := by
  refine firsts_congr_key (fun m hm m' hm' => ?_) fun m _ => ?_
  · constructor
    · exact congrArg Prod.fst
    · intro hname
      exact Prod.ext hname (disagreements_eq_nil.mp h m hm m' hm' hname)
  · exact ⟨fun h => (by cases h), fun h => by cases h⟩

end SchemaStitch
