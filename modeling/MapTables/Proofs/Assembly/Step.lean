import MapTables.Assembly.Basic
import MapTables.Proofs.Fallible

/-!
# What one event does

The ways in which the assembler accepts an event, with all that each of them does. Every
other rule about the assembler goes by these cases.
-/

namespace MapTables

def Change.closes : Change → Bool
  | .closed _ => true
  | _ => false

def Event.endsFeature : Event → Bool
  | .start .. => false
  | .close e => e.feature?.isSome

namespace Assembler

/-- An accepted event and what it leads to. -/
inductive Takes (a : Assembler) : Event → Step → Prop
  /-- A feature is opened, over one that is still open if there is one. -/
  | opens {k : FeatureKind} {attributes : Attributes} {f : Feature}
      (read : Reading.feature k attributes = .ok f) :
      Takes a (.start k.element attributes) (a.openWith f)
  | tags {attributes : Attributes} {key value : String} {f : Feature} {tags : Tags}
      (hk : attributes.get? "k" = some key) (hv : attributes.get? "v" = some value)
      (isOpen : a.openFeature = some f) (new : f.tags.insert? key value = some tags) :
      Takes a (.start .tag attributes)
        { next := { a with
            openFeature := some { f with tags }
            counts := { a.counts with tags := a.counts.tags + 1 } }
          change := .extended }
  /-- The feature has the key already. -/
  | repeats {attributes : Attributes} {key value : String} {f : Feature} {note : Option Line}
      (hk : attributes.get? "k" = some key) (hv : attributes.get? "v" = some value)
      (isOpen : a.openFeature = some f) (known : f.tags.insert? key value = none) :
      Takes a (.start .tag attributes)
        { next := { a with counts := { a.counts with duplicateTags := a.counts.duplicateTags + 1 } }
          change := .extended
          note }
  | refers {attributes : Attributes} {f : Feature} {refs : Array Int} {ref : Int}
      (isOpen : a.openFeature = some f) (isWay : f.body = .way refs)
      (read : Reading.requiredValue Reading.id? .nodeRef attributes "ref" a.context = .ok ref) :
      Takes a (.start .nodeRef attributes)
        { next := { a with
            openFeature := some { f with body := .way (refs.push ref) }
            counts := { a.counts with nodeRefs := a.counts.nodeRefs + 1 } }
          change := .extended }
  | joins {attributes : Attributes} {f : Feature} {row : MemberRow}
      (isOpen : a.openFeature = some f) (isRelation : f.body = .relation)
      (read : Reading.member f.id a.nextSequence attributes = .ok row) :
      Takes a (.start .member attributes)
        { next := { a with
            nextSequence := a.nextSequence + 1
            counts := { a.counts with members := a.counts.members + 1 } }
          change := .extended
          rows := [(.membersOf row.kind, .member row)] }
  | ignores {e : Element} (child : e.feature? = none) :
      Takes a (.close e) { next := a, change := .ignored }
  | closes {k : FeatureKind} {f : Feature} (isOpen : a.openFeature = some f) (kind : f.kind = k) :
      Takes a (.close k.element)
        { next := {
            openFeature := none
            nextSequence := a.sequenceAfter k
            counts := a.counts.addClosed k }
          change := .closed k
          rows := f.rows }

theorem required_eq_ok {e : Element} {attributes : Attributes} {name v : String} {c : Context}
    (h : Reading.required e attributes name c = .ok v) : attributes.get? name = some v := by
  unfold Reading.required at h
  split at h
  · next hv => cases h; exact hv
  · cases h

theorem takes_of_addTag {a : Assembler} {attributes : Attributes} {s : Step}
    (h : a.addTag attributes = .ok s) : a.Takes (.start .tag attributes) s := by
  unfold addTag at h
  obtain ⟨key, hk, h⟩ := bind_eq_ok.mp h
  obtain ⟨value, hv, h⟩ := bind_eq_ok.mp h
  split at h
  · cases h
  · next f isOpen =>
    split at h
    · next new => cases h; exact .tags (required_eq_ok hk) (required_eq_ok hv) isOpen new
    · next known => cases h; exact .repeats (required_eq_ok hk) (required_eq_ok hv) isOpen known

theorem takes_of_addNodeRef {a : Assembler} {attributes : Attributes} {s : Step}
    (h : a.addNodeRef attributes = .ok s) : a.Takes (.start .nodeRef attributes) s := by
  unfold addNodeRef at h
  split at h
  · next isOpen =>
    obtain ⟨ref, read, h⟩ := bind_eq_ok.mp h
    cases h
    exact .refers isOpen rfl read
  · cases h

theorem takes_of_addMember {a : Assembler} {attributes : Attributes} {s : Step}
    (h : a.addMember attributes = .ok s) : a.Takes (.start .member attributes) s := by
  unfold addMember at h
  split at h
  · next isOpen =>
    obtain ⟨row, read, h⟩ := bind_eq_ok.mp h
    cases h
    exact .joins isOpen rfl read
  · cases h

theorem element_of_feature? {e : Element} {k : FeatureKind} (h : e.feature? = some k) :
    e = k.element := by
  cases e <;> cases h <;> rfl

theorem takes_of_close {a : Assembler} {e : Element} {s : Step} (h : a.close e = .ok s) :
    a.Takes (.close e) s := by
  unfold close at h
  split at h
  · next child => cases h; exact .ignores child
  · next k hk =>
    rw [element_of_feature? hk]
    split at h
    · next f isOpen =>
      split at h
      · next kind => cases h; exact .closes isOpen kind
      · cases h
    · cases h

theorem takes_of_step {a : Assembler} {e : Event} {s : Step} (h : a.step e = .ok s) :
    a.Takes e s := by
  cases e with
  | close e => exact takes_of_close h
  | start e attributes =>
    have opened {k : FeatureKind} (h : (Reading.feature k attributes).map a.openWith = .ok s) :
        a.Takes (.start k.element attributes) s := by
      obtain ⟨f, read, rfl⟩ := map_eq_ok.mp h
      exact .opens read
    cases e with
    | node => exact opened (k := .node) h
    | way => exact opened (k := .way) h
    | relation => exact opened (k := .relation) h
    | tag => exact takes_of_addTag h
    | nodeRef => exact takes_of_addNodeRef h
    | member => exact takes_of_addMember h

/-! ## What every step keeps -/

variable {a : Assembler} {e : Event} {s : Step}

theorem openWith_isOpen (f : Feature) : (a.openWith f).next.openFeature = some f := by
  unfold openWith
  split <;> rfl

theorem openWith_counts (f : Feature) : (a.openWith f).next.counts = a.counts := by
  unfold openWith
  split <;> rfl

theorem openWith_change (f : Feature) : (a.openWith f).change = .opened f.kind := by
  unfold openWith
  split <;> rfl

theorem Takes.features_eq (h : a.Takes e s) :
    s.next.counts.features = a.counts.features + if s.change.closes then 1 else 0 := by
  cases h with
  | opens _ => rw [openWith_counts, openWith_change]; rfl
  | closes _ _ => exact Counts.features_addClosed _ _
  | _ => rfl

theorem Takes.isOpen {e : Element} {attributes : Attributes} (h : a.Takes (.start e attributes) s) :
    s.next.openFeature ≠ none := by
  cases h with
  | opens => rw [openWith_isOpen]; exact Option.some_ne_none _
  | tags => exact Option.some_ne_none _
  | repeats _ _ isOpen => rw [isOpen]; exact Option.some_ne_none _
  | refers => exact Option.some_ne_none _
  | joins isOpen => rw [isOpen]; exact Option.some_ne_none _

theorem Takes.closed (h : a.Takes e s) (hc : s.change.closes = true) :
    s.next.openFeature = none := by
  cases h with
  | opens _ => rw [openWith_change] at hc; cases hc
  | closes _ _ => rfl
  | _ => cases hc

theorem Takes.change_closes (h : a.Takes e s) : s.change.closes = e.endsFeature := by
  cases h with
  | opens => rw [openWith_change]; rfl
  | ignores child => simp [Change.closes, Event.endsFeature, child]
  | @closes k =>
    cases k <;> rfl
  | _ => rfl

theorem Takes.quiet (h : a.Takes e s) (hc : s.change.closes = false)
    (hn : s.next.openFeature = none) : a.openFeature = none ∧ s.rows = [] := by
  cases h with
  | opens _ => rw [openWith_isOpen] at hn; cases hn
  | tags => cases hn
  | repeats _ _ isOpen => rw [isOpen] at hn; cases hn
  | refers => cases hn
  | joins isOpen => rw [isOpen] at hn; cases hn
  | ignores => exact ⟨hn, rfl⟩
  | closes => cases hc

end Assembler
end MapTables
