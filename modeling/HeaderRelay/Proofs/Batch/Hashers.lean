import HeaderRelay.Proofs.Batch.Grammar
import Mathlib.Data.List.Forall2

/-!
# What the name of a header is good for

The function that names headers is a parameter of the codec. A reader asks it for one thing only,
the link to the header before where a record leaves it out. The links are part of the headers that
are named next, so two functions may come to differ in every link from there on; but they never
differ in anything else.

* `Context.AlikeButLinks`, `BlockHeader.AlikeButLink` — equal apart from what was named;
* `RecordForm.Spells.exists_alike` — one record, read in alike contexts;
* `Spells.exists_alike` — records in a row;
* `Spells.prevBlock_eq_of_some`, `Spells.exists_previous` — where a link comes from;
* `Rejects.of_hasher` — a payload is refused by all codecs of a policy, for the same reason;
* `Batch.hashers_differ_in_links` — whole payloads.
-/

namespace HeaderRelay

/-! ## Equal apart from what was named -/

/-- The headers are the same but perhaps for the link to the one before. -/
structure BlockHeader.AlikeButLink (header header' : BlockHeader) : Prop where
  version : header.version = header'.version
  merkleRoot : header.merkleRoot = header'.merkleRoot
  timestamp : header.timestamp = header'.timestamp
  bits : header.bits = header'.bits
  nonce : header.nonce = header'.nonce

/-- The contexts name headers differently, and remember the last name, but agree otherwise. -/
structure Context.AlikeButLinks (ctx ctx' : Context) : Prop where
  versions : ctx.versions = ctx'.versions
  timestamp : ctx.previous.timestamp = ctx'.previous.timestamp
  bits : ctx.previous.bits = ctx'.previous.bits

theorem Context.alikeButLinks_fresh (hasher hasher' : Hasher) :
    (fresh hasher).AlikeButLinks (fresh hasher') where
  versions := rfl
  timestamp := rfl
  bits := rfl

/-! ## One record -/

namespace RecordForm

/-- A form that means a header in one context means an alike header in an alike one, and the
contexts behind it are alike again. -/
theorem Spells.exists_alike {policy : ReferencePolicy} {ctx ctx' : Context} {first : Bool}
    {form : RecordForm} {header : BlockHeader} (h : form.Spells policy ctx first header)
    (halike : ctx.AlikeButLinks ctx') :
    ∃ header', form.Spells policy ctx' first header' ∧ header.AlikeButLink header' ∧
      (form.next ctx header).AlikeButLinks (form.next ctx' header') := by
  rcases header?_eq_some_iff.1 h.meaning with ⟨hversion, hheader⟩
  have hfields : header.AlikeButLink (form.header ctx'.previous header.version) := by
    rw [← hheader]
    -- only the link is taken from a name
    exact
      { version := rfl
        merkleRoot := rfl
        timestamp := congrArg (form.time.resolve ·) halike.timestamp
        bits := congrArg (form.bits.getD ·) halike.bits
        nonce := rfl }
  refine ⟨form.header ctx'.previous header.version, ⟨h.explicit, ?_, ?_⟩, hfields, ?_⟩
  · rw [← halike.versions]
    exact h.fits
  · refine header?_eq_some_iff.2 ⟨?_, rfl⟩
    rw [← halike.versions]
    exact hversion
  · exact
      { versions := congrArg form.tableAfter halike.versions
        timestamp := hfields.timestamp
        bits := hfields.bits }

end RecordForm

/-! ## Records in a row -/

namespace Batch

section Spells

variable {policy : ReferencePolicy} {ctx ctx' last : Context} {first : Bool}
  {forms : List RecordForm} {headers : List BlockHeader}

theorem Spells.exists_alike (h : Spells policy ctx first forms headers last)
    (halike : ctx.AlikeButLinks ctx') :
    ∃ (headers' : List BlockHeader) (last' : Context),
      Spells policy ctx' first forms headers' last' ∧
        List.Forall₂ BlockHeader.AlikeButLink headers headers' ∧ last.AlikeButLinks last' := by
  induction h generalizing ctx' with
  | nil => exact ⟨[], ctx', .nil, .nil, halike⟩
  | @cons ctx last first form header forms headers hform _ ih =>
      rcases hform.exists_alike halike with ⟨header', hform', hheader, hnext⟩
      rcases ih hnext with ⟨headers', last', hspells', hheaders, hlast⟩
      exact ⟨header' :: headers', last', .cons hform' hspells', .cons hheader hheaders, hlast⟩

/-- A link that a record carries is the one of its header. -/
theorem Spells.prevBlock_eq_of_some (h : Spells policy ctx first forms headers last) {i : Nat}
    {form : RecordForm} {header : BlockHeader} {link : Hash} (hform : forms[i]? = some form)
    (hheader : headers[i]? = some header) (hlink : form.prevBlock = some link) :
    header.prevBlock = link := by
  induction h generalizing i with
  | nil => cases hform
  | cons hspells _ ih =>
      cases i with
      | zero =>
          cases hform
          cases hheader
          rw [← (RecordForm.header?_eq_some_iff.1 hspells.meaning).2]
          show form.prevBlock.getD _ = link
          rw [hlink, Option.getD_some]
      | succ i => exact ih hform hheader

/-- A link that a record leaves out names the header before; in front of the first one, that is what
the context remembers. -/
theorem Spells.exists_previous_of_none (h : Spells policy ctx first forms headers last) {i : Nat}
    {form : RecordForm} {header : BlockHeader} (hform : forms[i]? = some form)
    (hheader : headers[i]? = some header) (hlink : form.prevBlock = none) :
    (i = 0 ∧ header.prevBlock = ctx.previous.hash) ∨
      ∃ j previous, i = j + 1 ∧ headers[j]? = some previous ∧
        header.prevBlock = ctx.hasher previous := by
  induction h generalizing i with
  | nil => cases hform
  | @cons ctx last first form₀ header₀ forms headers hspells _ ih =>
      cases i with
      | zero =>
          cases hform
          cases hheader
          refine Or.inl ⟨rfl, ?_⟩
          rw [← (RecordForm.header?_eq_some_iff.1 hspells.meaning).2]
          show form.prevBlock.getD _ = ctx.previous.hash
          rw [hlink, Option.getD_none]
      | succ i =>
          -- behind `header₀`, what is remembered is its name
          rcases ih hform hheader with ⟨rfl, hprevious⟩ | ⟨j, previous, rfl, hj, hprevious⟩
          · exact Or.inr ⟨0, header₀, rfl, rfl, hprevious⟩
          · exact Or.inr ⟨j + 1, previous, rfl, hj, hprevious⟩

theorem Spells.hasPrevBlock_eq (h : Spells policy ctx first forms headers last)
    {form : RecordForm} (hform : form ∈ forms) :
    form.prevBlock.isSome = form.bitfield.hasPrevBlock := by
  induction h with
  | nil => cases hform
  | cons hspells _ ih =>
      rcases List.mem_cons.1 hform with rfl | hlater
      · exact hspells.fits.prevBlock
      · exact ih hlater

/-- The first record of a batch is explicit, so that it carries its link. -/
theorem Spells.carries_link_of_first (h : Spells policy ctx true forms headers last)
    {form : RecordForm} (hform : forms[0]? = some form) :
    form.bitfield.hasPrevBlock = true := by
  cases h with
  | nil => cases hform
  | cons hspells _ =>
      cases hform
      have hexplicit := (Bitfield.ofByte_eq_explicit_iff _).2 (hspells.explicit rfl)
      exact congrArg Bitfield.hasPrevBlock hexplicit

/-- In a batch, a link that is left out always has a header before it to name. -/
theorem Spells.exists_previous (h : Spells policy ctx true forms headers last) {i : Nat}
    {form : RecordForm} {header : BlockHeader} (hform : forms[i]? = some form)
    (hheader : headers[i]? = some header) (hleft : form.bitfield.hasPrevBlock = false) :
    ∃ j previous, i = j + 1 ∧ headers[j]? = some previous ∧
      header.prevBlock = ctx.hasher previous := by
  have hsome : form.prevBlock.isSome = false :=
    (h.hasPrevBlock_eq (List.mem_of_getElem? hform)).trans hleft
  have hnone : form.prevBlock = none :=
    Option.isNone_iff_eq_none.1 (Option.isSome_eq_false_iff.1 hsome)
  rcases h.exists_previous_of_none hform hheader hnone with ⟨rfl, _⟩ | hprevious
  · cases hleft.symm.trans (h.carries_link_of_first hform)
  · exact hprevious

end Spells

/-! ## Whole payloads -/

/-- What is wrong with a payload has nothing to do with names. -/
theorem Rejects.of_hasher {policy : ReferencePolicy} {hasher : Hasher} {payload : List UInt8}
    {e : DecodeError} (h : Rejects ⟨policy, hasher⟩ payload e) (hasher' : Hasher) :
    Rejects ⟨policy, hasher'⟩ payload e := by
  cases h with
  | size hcut => exact .size hcut
  | count hsize hbound => exact .count hsize hbound
  | record hsize hbound hless hspells hrefused =>
      rcases hspells.exists_alike (Context.alikeButLinks_fresh hasher hasher') with
        ⟨headers', last', hspells', _, hlast⟩
      rw [hlast.versions] at hrefused
      exact .record hsize hbound hless hspells' hrefused

theorem Parse.Accepts.exists_alike {policy : ReferencePolicy} {hasher : Hasher} {parse : Parse}
    {headers : List BlockHeader} {last : Context}
    (h : parse.Accepts ⟨policy, hasher⟩ headers last) (hasher' : Hasher) :
    ∃ (headers' : List BlockHeader) (last' : Context),
      parse.Accepts ⟨policy, hasher'⟩ headers' last' ∧
        List.Forall₂ BlockHeader.AlikeButLink headers headers' ∧ last.AlikeButLinks last' := by
  rcases h.spells.exists_alike (Context.alikeButLinks_fresh hasher hasher') with
    ⟨headers', last', hspells', hheaders, hlast⟩
  exact ⟨headers', last', ⟨h.size, h.bounded, h.count, hspells'⟩, hheaders, hlast⟩

/-- With two functions that name headers, a payload is refused for the same reason, or it is read as
headers that differ in links only: the same bytes are consumed, the same things are reported, and the
same versions are in the table afterwards. A link that its record carries is the same as well; every
other one is the name, by the function that was used, of the header before. -/
theorem hashers_differ_in_links (policy : ReferencePolicy) (hasher hasher' : Hasher)
    (payload : List UInt8) :
    (∃ e s s', decode ⟨policy, hasher⟩ payload = .error e s ∧
      decode ⟨policy, hasher'⟩ payload = .error e s') ∨
    ∃ (headers headers' : List BlockHeader) (last last' : Context) (s : Reading),
      decode ⟨policy, hasher⟩ payload = .ok headers s ∧
      decode ⟨policy, hasher'⟩ payload = .ok headers' s ∧
      (∀ ctx, decodeIn ⟨policy, hasher⟩ ctx payload = .ok headers ⟨s, last⟩ ∧
        decodeIn ⟨policy, hasher'⟩ ctx payload = .ok headers' ⟨s, last'⟩) ∧
      last.versions = last'.versions ∧
      headers.length = headers'.length ∧
      (∃ parse : Parse, parse.bytes = payload ∧ parse.Accepts ⟨policy, hasher⟩ headers last) ∧
      ∀ parse : Parse, parse.bytes = payload → parse.Accepts ⟨policy, hasher⟩ headers last →
        parse.Accepts ⟨policy, hasher'⟩ headers' last' ∧
        parse.forms.length = headers.length ∧
        ∀ (i : Nat) (form : RecordForm) (header header' : BlockHeader),
          parse.forms[i]? = some form → headers[i]? = some header → headers'[i]? = some header' →
            header.AlikeButLink header' ∧
            (form.bitfield.hasPrevBlock = true → header.prevBlock = header'.prevBlock) ∧
            (form.bitfield.hasPrevBlock = false →
              ∃ j previous previous', i = j + 1 ∧
                headers[j]? = some previous ∧ header.prevBlock = hasher previous ∧
                headers'[j]? = some previous' ∧ header'.prevBlock = hasher' previous') := by
  rcases accepted_or_rejected ⟨policy, hasher⟩ payload with
    ⟨parse₀, headers, last, rfl, haccepts₀⟩ | ⟨e, hrejects⟩
  · rcases haccepts₀.exists_alike hasher' with ⟨headers', last', haccepts₀', hheaders, hlast⟩
    refine Or.inr ⟨headers, headers', last, last', _, decode_accepted haccepts₀,
      decode_accepted haccepts₀', ?_, hlast.versions, hheaders.length_eq,
      ⟨parse₀, rfl, haccepts₀⟩, ?_⟩
    · intro ctx
      exact ⟨decodeIn_accepted haccepts₀ ctx, decodeIn_accepted haccepts₀' ctx⟩
    · intro parse hparse haccepts
      -- however the payload is taken apart, it is read as the same headers
      have haccepts' : parse.Accepts ⟨policy, hasher'⟩ headers' last' := by
        rcases haccepts.exists_alike hasher' with ⟨others, lastOther, hothers, _, _⟩
        have hread := decodeIn_accepted hothers lastOther
        rw [hparse, decodeIn_accepted haccepts₀' lastOther] at hread
        rcases EStateM.Result.ok.inj hread with ⟨rfl, hstate⟩
        cases (congrArg Decoding.context hstate : last' = lastOther)
        exact hothers
      refine ⟨haccepts', haccepts.spells.length_eq, ?_⟩
      intro i form header header' hform hheader hheader'
      refine ⟨?_, ?_, ?_⟩
      · rcases List.getElem?_eq_some_iff.1 hheader with ⟨hi, rfl⟩
        rcases List.getElem?_eq_some_iff.1 hheader' with ⟨hi', rfl⟩
        exact hheaders.get hi hi'
      · intro hcarried
        have hflag := haccepts.spells.hasPrevBlock_eq (List.mem_of_getElem? hform)
        rcases Option.isSome_iff_exists.1 (hflag.trans hcarried) with ⟨link, hlink⟩
        calc
          header.prevBlock = link := haccepts.spells.prevBlock_eq_of_some hform hheader hlink
          _ = header'.prevBlock :=
            (haccepts'.spells.prevBlock_eq_of_some hform hheader' hlink).symm
      · intro hleft
        rcases haccepts.spells.exists_previous hform hheader hleft with
          ⟨j, previous, rfl, hj, hprevious⟩
        rcases haccepts'.spells.exists_previous hform hheader' hleft with
          ⟨j', previous', hindex, hj', hprevious'⟩
        cases hindex
        exact ⟨j, previous, previous', rfl, hj, hprevious, hj', hprevious'⟩
  · rcases decode_rejected hrejects with ⟨s, hs⟩
    rcases decode_rejected (hrejects.of_hasher hasher') with ⟨s', hs'⟩
    exact Or.inl ⟨e, s, s', hs, hs'⟩

/-- A header, and one that leaves its link out: the second is linked to whatever the first is
called. -/
theorem hashers_differ_in_links_renamed :
    ∃ (payload : List UInt8) (s : Reading) (headers' : List BlockHeader) (header' : BlockHeader),
      decode ⟨.strict, fun _ => Hash.zero⟩ payload =
        .ok [⟨4, Hash.zero, Hash.zero, 0, 1, 2⟩, ⟨4, Hash.zero, Hash.zero, 600, 1, 3⟩] s ∧
      decode ⟨.strict, fun _ => Vector.replicate 32 0x42⟩ payload = .ok headers' s ∧
      headers'[1]? = some header' ∧ header'.prevBlock = Vector.replicate 32 0x42 ∧
      header'.timestamp = 600 := by
  have haccepts : Parse.Accepts ⟨.strict, fun _ => Hash.zero⟩
      [⟨4, Hash.zero, Hash.zero, 0, 1, 2⟩, ⟨4, Hash.zero, Hash.zero, 600, 1, 3⟩] _
      ⟨2, [0xFD, 2, 0],
        [⟨0x38, some 4, some Hash.zero, Hash.zero, .full 0, some 1, 2⟩,
          ⟨1, none, none, Hash.zero, .offset 600, none, 3⟩], []⟩ :=
    { size := CompactSize.Form.two 2
      bounded := by decide
      count := rfl
      spells :=
        .cons ⟨by decide, ⟨by decide, by decide, rfl, rfl, rfl⟩, rfl⟩
          (.cons ⟨by decide, ⟨by decide, by decide, rfl, rfl, rfl⟩, rfl⟩ .nil) }
  have hread := decodeIn_accepted haccepts (.fresh fun _ => Hash.zero)
  rcases hashers_differ_in_links .strict (fun _ => Hash.zero) (fun _ => Vector.replicate 32 0x42)
      (Parse.bytes _) with
    ⟨e, s, s', herror, _⟩ | ⟨headers, headers', last, last', s, hs, hs', hin, _, hlength, _, hlinks⟩
  · cases (decode_accepted haccepts).symm.trans herror
  · rcases EStateM.Result.ok.inj (hread.symm.trans (hin _).1) with ⟨rfl, hstate⟩
    cases (congrArg Decoding.context hstate : _ = last)
    have hsecond : 1 < headers'.length := by
      rw [← hlength]
      decide
    rcases (hlinks _ rfl haccepts).2.2 1 _ _ _ rfl rfl (List.getElem?_eq_getElem hsecond) with
      ⟨halike, _, hleft⟩
    rcases hleft (by decide) with ⟨j, previous, previous', _, _, _, _, hnamed⟩
    exact ⟨_, s, headers', _, hs, hs', List.getElem?_eq_getElem hsecond, hnamed,
      halike.timestamp.symm⟩

end Batch
end HeaderRelay
