import ContentSchema.Build
import ContentSchema.Proofs.DictionaryEntries
import ContentSchema.Proofs.LinkFields
import ContentSchema.Proofs.OutputRun

/-! Inference asks the registry for names only. Two sites that agree on the registered names give
the same fields, hand out the same names and leave the same warnings. -/
namespace ContentSchema

theorem Registry.has_iff {r : Registry} {name : String} : r.has name = true ↔ name ∈ r.names :=
  Dictionary.has_iff

theorem Registry.has_eq_of_names {r s : Registry} (names : r.names = s.names) (name : String) :
    r.has name = s.has name := by
  rw [Bool.eq_iff_iff, has_iff, has_iff, names]

/-- The same records, configuration and convention, and record types of the same names. -/
structure Site.Agrees (a b : Site) : Prop where
  store : a.store = b.store
  config : a.config = b.config
  convention : a.convention = b.convention
  registered : ∀ name, a.registry.has name = b.registry.has name

namespace Site

theorem configuredLink_eq (site : Site) (selector key target : String) (v : Value) :
    site.configuredLink selector key target v =
      if site.registry.has target then
        .ok (.link target v.items?.isSome (.mapping key target v.items?.isSome))
      else .error (.configuredType selector ⟨target⟩) := by
  unfold configuredLink
  cases h : site.registry.has target with
  | true =>
    obtain ⟨type, found⟩ := Registry.get_of_has h
    simp [found]
  | false => simp [Registry.get_of_not_has h]

theorem locationLink_eq (site : Site) (key : String) :
    site.locationLink key =
      if site.registry.has fileType then .ok (.link fileType false (.file key))
      else .error (.fileType key ⟨fileType⟩) := by
  unfold locationLink
  cases h : site.registry.has fileType with
  | true =>
    obtain ⟨type, found⟩ := Registry.get_of_has h
    simp [found]
  | false => simp [Registry.get_of_not_has h]

theorem keyLink_eq (site : Site) (key : String) (v : Value) :
    site.keyLink key v =
      (sample v).bind fun first =>
        ((site.store.linked? first (LinkKey.linkedField? key)).mapError LinkFailure.store).bind fun
          | none => .error (.node key first)
          | some r =>
            if site.registry.has (Record.typeName r) then
              .ok (.link (Record.typeName r) v.items?.isSome
                (.node key (LinkKey.linkedField? key) v.items?.isSome))
            else .error (.nodeType key ⟨Record.typeName r⟩) := by
  unfold keyLink
  refine congrArg (sample v).bind (funext fun first => ?_)
  refine congrArg
    ((site.store.linked? first (LinkKey.linkedField? key)).mapError LinkFailure.store).bind
      (funext fun found => ?_)
  cases found with
  | none => rfl
  | some r =>
    cases h : site.registry.has (Record.typeName r) with
    | true =>
      obtain ⟨type, got⟩ := Registry.get_of_has h
      simp [got, h, pure, Except.pure]
    | false => simp [Registry.get_of_not_has h, h, throw, throwThe, MonadExceptOf.throw]

namespace Agrees

section
variable {a b : Site} (agrees : a.Agrees b) (typeName : String)
include agrees

theorem linkOf?_eq (selector key : String) (v : Value) :
    OutputFields.linkOf? a typeName selector key v =
      OutputFields.linkOf? b typeName selector key v := by
  unfold OutputFields.linkOf?
  simp only [configuredLink_eq, keyLink_eq, locationLink_eq, agrees.store, agrees.config,
    agrees.convention, agrees.registered]

theorem run_eq :
    (∀ selector fieldName v pass,
      OutputFields.ofValue b typeName selector fieldName v pass =
        OutputFields.ofValue a typeName selector fieldName v pass) ∧
    ∀ selector fields pass,
      OutputFields.ofFields b typeName selector fields pass =
        OutputFields.ofFields a typeName selector fields pass := by
  refine OutputFields.run_induction a typeName
    (P := fun selector fieldName v pass found after =>
      OutputFields.ofValue b typeName selector fieldName v pass = (found, after))
    (Q := fun selector fields pass found after =>
      OutputFields.ofFields b typeName selector fields pass = (found, after))
    ?sequence ?empty ?single ?noField ?object ?nil ?failed ?linked ?untyped ?typed
  case sequence =>
    intro selector fieldName w head rest pass found after members ih
    rw [OutputFields.ofValue_sequence b typeName selector fieldName pass members, ih]
  case empty =>
    exact fun selector fieldName w pass none =>
      OutputFields.ofValue_empty b typeName selector fieldName pass none
  case single =>
    exact fun selector fieldName w pass noSequence noMapping =>
      OutputFields.ofValue_single b typeName selector fieldName pass noSequence noMapping
  case noField => exact fun _ _ _ _ _ ih => OutputFields.ofValue_of_noField ih
  case object => exact fun _ _ _ _ _ _ ih some => OutputFields.ofValue_of_fields ih some
  case nil => exact fun _ _ => rfl
  case failed =>
    intro selector key v rest pass e found after link ih
    rw [agrees.linkOf?_eq] at link
    exact (OutputFields.ofFields_of_failed link).trans ih
  case linked =>
    intro selector key v rest pass field found after link ih
    rw [agrees.linkOf?_eq] at link
    rw [OutputFields.ofFields_of_linked link, ih]
  case untyped =>
    intro selector key v rest pass between found after link ihv ih
    rw [agrees.linkOf?_eq] at link
    exact (OutputFields.ofFields_of_untyped link ihv).trans ih
  case typed =>
    intro selector key v rest pass f between found after link ihv ih
    rw [agrees.linkOf?_eq] at link
    rw [OutputFields.ofFields_of_typed link ihv, ih]

theorem ofExample_eq (selector : Option String) (fields : Record) (pass : Pass) :
    OutputFields.ofExample a typeName selector fields pass =
      OutputFields.ofExample b typeName selector fields pass := by
  have same := (agrees.run_eq typeName).2
  cases selector with
  | none => exact congrArg (fun run => (Dictionary.ofList run.1, run.2)) (same "" _ pass).symm
  | some selector =>
    exact congrArg (fun run => (Dictionary.ofList run.1, run.2)) (same selector _ pass).symm

end
end Agrees
end Site
end ContentSchema
