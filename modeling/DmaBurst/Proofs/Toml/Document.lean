import DmaBurst.Proofs.Toml.Entries
import DmaBurst.Toml.Document

namespace DmaBurst.Toml

namespace Reader

variable {α β : Type} {P : α → Prop} {Q : β → Prop} {r : Reader α} {f : α → Reader β}

/-- Whatever a reader returns has a property. -/
def Yields (P : α → Prop) (r : Reader α) : Prop :=
  ∀ cs a rest, r cs = some (a, rest) → P a

theorem Yields.bind (hr : r.Yields P) (hf : ∀ a, P a → (f a).Yields Q) : (r >>= f).Yields Q := by
  intro cs b rest h
  obtain ⟨⟨a, cs'⟩, ha, hb⟩ := Option.bind_eq_some_iff.mp h
  exact hf a (hr cs a cs' ha) cs' b rest hb

theorem yields_bind (hf : ∀ a, (f a).Yields Q) : (r >>= f).Yields Q :=
  Yields.bind (P := fun _ => True) (fun _ _ _ _ => trivial) fun a _ => hf a

theorem yields_pure {a : α} (h : P a) : (pure a : Reader α).Yields P := by
  intro cs b rest hb
  cases hb
  exact h

theorem yields_failure : (failure : Reader α).Yields P := by
  intro cs b rest hb
  cases hb

theorem yields_lift {o : Option α} (h : ∀ a, o = some a → P a) : (liftM o : Reader α).Yields P := by
  intro cs b rest hb
  obtain ⟨a, ha, hp⟩ := Option.bind_eq_some_iff.mp hb
  cases hp
  exact h _ ha

theorem Yields.repeatAlong {step : Reader (Option α)} (h : step.Yields fun o => ∀ a ∈ o, P a)
    (text : List Char) : (Reader.repeatAlong step text).Yields fun as => ∀ a ∈ as, P a := by
  induction text with
  | nil =>
    refine h.bind fun o ho => yields_pure fun a ha => ho a ?_
    exact Option.mem_toList.mp ha
  | cons c text ih =>
    refine h.bind fun o ho => ?_
    cases o with
    | none => exact yields_pure fun a ha => absurd ha List.not_mem_nil
    | some a =>
      exact ih.bind fun as has => yields_pure (List.forall_mem_cons.mpr ⟨ho a rfl, has⟩)

theorem Yields.repeated {step : Reader (Option α)} (h : step.Yields fun o => ∀ a ∈ o, P a) :
    (Reader.repeated step).Yields fun as => ∀ a ∈ as, P a :=
  yields_bind fun text => h.repeatAlong text

end Reader

open Reader

theorem distinct_integer (n : Int) : (integer n).Yields Value.Distinct :=
  yields_bind fun _ => yields_pure (.integer n)

theorem distinct_radix (base : Nat) (isDigit : Char → Bool) :
    (radix base isDigit).Yields Value.Distinct :=
  yields_bind fun _ => distinct_integer _

theorem distinct_date : date.Yields Value.Distinct := by
  have hdate : (pure Value.date : Reader Value).Yields Value.Distinct := yields_pure .date
  unfold date
  refine yields_bind fun cs => ?_
  split
  · exact yields_bind fun _ => hdate
  · refine yields_bind fun _ => yields_bind fun cs => ?_
    split
    · split
      · exact yields_bind fun _ => yields_bind fun _ => yields_bind fun _ => hdate
      · exact hdate
    · exact hdate

theorem distinct_decimal : decimal.Yields Value.Distinct := by
  unfold decimal
  refine yields_bind fun negative => yields_bind fun _ => yields_bind fun _ => ?_
  split
  · exact yields_pure .float
  · refine yields_bind fun whole => yields_bind fun pointed => ?_
    have hrest : ∀ fraction : Option (List Char), (do
        let power ← exponent
        if fraction.isNone ∧ power.isNone then
          let n : Int := valueIn 10 whole
          integer (if negative then -n else n)
        else
          let fraction := fraction.getD []
          guard (negative || !overflows (whole ++ fraction) (power.getD 0 - fraction.length))
          return .float : Reader Value).Yields Value.Distinct := by
      intro fraction
      refine yields_bind fun power => ?_
      split
      · exact distinct_integer _
      · exact yields_bind fun _ => yields_pure .float
    cases pointed with
    | true => exact yields_bind hrest
    | false => exact yields_bind hrest

theorem distinct_number : number.Yields Value.Distinct := by
  unfold number
  refine yields_bind fun cs => ?_
  split
  · exact distinct_date
  · refine yields_bind fun hex => ?_
    split
    · exact distinct_radix 16 isHexDigit
    · refine yields_bind fun octal => ?_
      split
      · exact distinct_radix 8 isOctal
      · refine yields_bind fun binary => ?_
        split
        · exact distinct_radix 2 isBinary
        · exact distinct_decimal

theorem distinct_scalar : scalar.Yields Value.Distinct := by
  unfold scalar
  refine yields_bind fun c => ?_
  split
  · exact yields_bind fun s => yields_pure (.string s)
  · exact yields_bind fun s => yields_pure (.string s)
  · exact yields_bind fun _ => yields_pure (.boolean true)
  · exact yields_bind fun _ => yields_pure (.boolean false)
  · exact distinct_number

variable {item : Reader Value}

theorem distinct_arrayItems (h : item.Yields Value.Distinct) (text : List Char) :
    (arrayItems item text).Yields fun items => ∀ v ∈ items, v.Distinct := by
  have hnil : ∀ v ∈ ([] : List Value), v.Distinct := fun v hv => absurd hv List.not_mem_nil
  induction text with
  | nil => exact yields_failure
  | cons c text ih =>
    unfold arrayItems
    refine yields_bind fun _ => yields_bind fun closed => ?_
    split
    · exact yields_pure hnil
    · refine h.bind fun v hv => yields_bind fun _ => yields_bind fun comma => ?_
      split
      · exact ih.bind fun items hitems => yields_pure (List.forall_mem_cons.mpr ⟨hv, hitems⟩)
      · exact yields_bind fun _ => yields_pure (List.forall_mem_cons.mpr ⟨hv, hnil⟩)

theorem distinct_array (h : item.Yields Value.Distinct) : (array item).Yields Value.Distinct := by
  unfold array
  exact yields_bind fun _ => yields_bind fun text =>
    (distinct_arrayItems h text).bind fun items hitems => yields_pure (.array hitems)

theorem distinct_pair (h : item.Yields Value.Distinct) :
    (pair item).Yields fun p => p.2.Distinct := by
  unfold pair
  exact yields_bind fun key => yields_bind fun _ => yields_bind fun _ =>
    h.bind fun v hv => yields_pure hv

theorem distinct_inlinePairs (h : item.Yields Value.Distinct) :
    (inlinePairs item).Yields fun pairs => ∀ p ∈ pairs, p.2.Distinct := by
  unfold inlinePairs
  refine yields_bind fun _ => yields_bind fun c => ?_
  split
  · exact yields_pure fun p hp => absurd hp List.not_mem_nil
  · refine (distinct_pair h).bind fun first hfirst => yields_bind fun _ => Yields.bind
      (P := fun more => ∀ p ∈ more, p.2.Distinct) (Yields.repeated ?_) fun more hmore =>
        yields_pure (List.forall_mem_cons.mpr ⟨hfirst, hmore⟩)
    refine yields_bind fun comma => ?_
    split
    · refine (distinct_pair h).bind fun p hp => yields_bind fun _ => yields_pure fun q hq => ?_
      cases hq
      exact hp
    · exact yields_pure fun q hq => nomatch hq

theorem distinct_inlineTable (h : item.Yields Value.Distinct) :
    (inlineTable item).Yields Value.Distinct := by
  unfold inlineTable
  refine yields_bind fun _ => (distinct_inlinePairs h).bind fun pairs hpairs =>
    yields_bind fun _ => Yields.bind (P := Entries.Distinct) (yields_lift fun es hes => ?_)
      fun es hes => yields_pure hes.close
  exact Entries.distinct_nil.addAll hpairs hes

theorem distinct_value : value.Yields Value.Distinct := by
  have hdepth : ∀ depth, (valueUpTo depth).Yields Value.Distinct := by
    intro depth
    induction depth with
    | zero => exact distinct_scalar
    | succ depth ih =>
      unfold valueUpTo
      refine yields_bind fun c => ?_
      split
      · exact distinct_array ih
      · exact distinct_inlineTable ih
      · exact distinct_scalar
  exact hdepth _

def Statement.Distinct : Statement → Prop
  | .pair p => p.2.Distinct
  | .table .. | .arrayItem .. => True

theorem distinct_statement : statement.Yields Statement.Distinct := by
  unfold statement
  refine yields_bind fun c => ?_
  split
  · unfold header
    refine yields_bind fun double => ?_
    split
    · exact yields_bind fun _ => yields_bind fun _ => yields_pure trivial
    · exact yields_bind fun _ => yields_bind fun _ => yields_bind fun _ => yields_pure trivial
  · exact (distinct_pair distinct_value).bind fun p hp => yields_pure hp

theorem distinct_line : line.Yields fun o => ∀ said ∈ o, ∀ s ∈ said, s.Distinct := by
  have hblank : (do lineEnd; return some none : Reader (Option (Option Statement))).Yields
      fun o => ∀ said ∈ o, ∀ s ∈ said, s.Distinct := by
    refine yields_bind fun _ => yields_pure fun said hsaid s hs => ?_
    cases hsaid
    cases hs
  unfold line
  refine yields_bind fun _ => yields_bind fun c => ?_
  split
  · exact yields_pure fun said hsaid => nomatch hsaid
  · exact hblank
  · exact hblank
  · exact hblank
  · refine distinct_statement.bind fun s hs => yields_bind fun _ => yields_pure ?_
    rintro said ⟨rfl⟩ s' ⟨rfl⟩
    exact hs

theorem distinct_statements : statements.Yields fun ss => ∀ s ∈ ss, s.Distinct := by
  unfold statements
  refine yields_bind fun _ => distinct_line.repeated.bind fun lines hlines =>
    yields_bind fun _ => yields_bind fun _ => yields_pure fun s hs => ?_
  obtain ⟨said, hsaid, rfl⟩ := List.mem_filterMap.mp hs
  exact hlines _ hsaid s rfl

theorem distinct_leadingPairs {ss : List Statement} (h : ∀ s ∈ ss, s.Distinct) :
    ∀ p ∈ (leadingPairs ss).1, p.2.Distinct := by
  induction ss with
  | nil => exact fun p hp => absurd hp List.not_mem_nil
  | cons s ss ih =>
    obtain ⟨hs, hss⟩ := List.forall_mem_cons.mp h
    cases s with
    | pair p => exact List.forall_mem_cons.mpr ⟨hs, ih hss⟩
    | table path key => exact fun p hp => absurd hp List.not_mem_nil
    | arrayItem path key => exact fun p hp => absurd hp List.not_mem_nil

theorem distinct_addSections {ss : List Statement} {es es' : Entries}
    (h : ∀ s ∈ ss, s.Distinct) (hes : es.Distinct) (ha : addSections ss es = some es') :
    es'.Distinct := by
  induction ss generalizing es with
  | nil =>
    cases ha
    exact hes
  | cons s ss ih =>
    have hss := (List.forall_mem_cons.mp h).2
    cases s with
    | pair p => exact ih hss hes ha
    | table path key =>
      obtain ⟨next, hnext, hrest⟩ := Option.bind_eq_some_iff.mp ha
      exact ih hss (hes.addTable (distinct_leadingPairs hss) hnext) hrest
    | arrayItem path key =>
      obtain ⟨next, hnext, hrest⟩ := Option.bind_eq_some_iff.mp ha
      exact ih hss (hes.addToArray (distinct_leadingPairs hss) hnext) hrest

theorem distinct_parse {text : String} {v : Value} (h : parse text = some v) :
    v.Distinct ∧ ∃ entries, v = .table entries := by
  obtain ⟨⟨ss, rest⟩, hss, h⟩ := Option.bind_eq_some_iff.mp h
  obtain ⟨es, hes, hv⟩ := Option.bind_eq_some_iff.mp h
  cases hv
  refine ⟨?_, _, rfl⟩
  have hdistinct := distinct_statements _ _ _ hss
  obtain ⟨first, hfirst, hrest⟩ := Option.bind_eq_some_iff.mp hes
  have hd := Entries.distinct_nil.addAll (distinct_leadingPairs hdistinct) hfirst
  exact (distinct_addSections hdistinct hd hrest).close

end DmaBurst.Toml
