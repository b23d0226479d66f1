import EdgeGateway.Edge.Filter
import EdgeGateway.Proofs.Blacklist.Canonical

/-! # Who is turned away

The address that a request counts as coming from is `sourceAddress`: the one that the proxy header
holds, else the first hop of the forwarded-for chain, else the peer. The text that the filter looks
up spells that address (`parse?_resolve`), and since a look-up goes by the address, the filter turns
a request away exactly if this address is listed (`denies_iff_listed`), whatever else the request
holds and however the address is spelled. -/

namespace EdgeGateway.Edge

open Http

/-! ### The address of a request -/

/-- The address that a request counts as coming from. -/
def sourceAddress (names : AddressHeaders) (h : Headers) (peer : Address) : Address :=
  let proxy := (headerText? h names.proxy).bind fun t => Address.parse? (Text.trim t)
  let chain := (headerText? h names.forwardedFor).bind fun t => Address.parse? (firstHop t)
  (proxy.or chain).getD peer

/-- No character of an address is a control character. -/
theorem isControl_of_isAddressChar {c : Char} (h : Address.isAddressChar c) :
    isControl c = false := by
  have hrange := Address.toNat_of_isAddressChar h
  simp only [isControl, Bool.or_eq_false_iff, Bool.and_eq_false_iff, decide_eq_false_iff_not]
  omega

/-- Blanks and control characters need no check of their own. -/
theorem isAddress_eq (cs : List Char) : isAddress cs = (Address.parse? cs).isSome := by
  rw [isAddress]
  rcases hp : Address.parse? cs with - | a
  · simp
  · have hchars : (cs.any fun c => isControl c || Text.isBlank c) = false := by
      rw [List.any_eq_false]
      intro c hc
      have hchar := Address.isAddressChar_of_parse? hp c hc
      simp [Address.isBlank_of_isAddressChar hchar, isControl_of_isAddressChar hchar]
    have hne : cs.isEmpty = false := by
      match cs, hp with
      | _ :: _, _ => rfl
    simp [hchars, hne]

/-- A candidate counts exactly if it is read as an address. -/
theorem parse?_filter_isAddress (o : Option (List Char)) :
    (o.filter isAddress).bind Address.parse? = o.bind Address.parse? := by
  match o with
  | none => rfl
  | some cs =>
    rw [Option.filter_some, isAddress_eq]
    rcases hp : Address.parse? cs with - | a <;> simp [hp]

/-- **The address of a client** spells the address that its request counts as coming from. -/
theorem parse?_resolve (names : AddressHeaders) (h : Headers) (peer : Address) :
    Address.parse? (Client.resolve names h peer).address = some (sourceAddress names h peer) := by
  have hproxy : (fromProxy? names h).bind Address.parse? =
      (headerText? h names.proxy).bind fun t => Address.parse? (Text.trim t) := by
    rw [fromProxy?, parse?_filter_isAddress, Option.bind_map]
    rfl
  have hchain : (fromChain? names h).bind Address.parse? =
      (headerText? h names.forwardedFor).bind fun t => Address.parse? (firstHop t) := by
    rw [fromChain?, parse?_filter_isAddress, Option.bind_map]
    rfl
  have hread {o : Option (List Char)} {cs : List Char} (h : o.filter isAddress = some cs) :
      ∃ a, Address.parse? cs = some a := by
    rw [← Option.isSome_iff_exists, ← isAddress_eq]
    exact (Option.filter_eq_some_iff.1 h).2
  rw [sourceAddress, ← hproxy, ← hchain, Client.resolve]
  split
  next cs hp =>
    obtain ⟨a, ha⟩ := hread hp
    simp [hp, ha]
  next hp =>
    split
    next cs hc =>
      obtain ⟨a, ha⟩ := hread hc
      simp [hp, hc, ha]
    next hc => simp [hp, hc, Address.parse?_render]

/-! ### The decision -/

namespace Filter

/-- What a request is answered that is not forwarded. -/
def Outcome.answer? : Outcome → Option Response
  | .deny => some denial
  | .forward _ _ => none

theorem Outcome.answer?_eq_some_iff (o : Outcome) : o.answer? = some denial ↔ o = .deny := by
  cases o <;> simp [answer?]

theorem filter_eq_deny_iff (f : Filter) (r : Request) (peer : Address) {b : Blacklist}
    (h : b.Canonical) (at_ : Blacklist.Readings) :
    (f.filter r peer b at_).1 = .deny ↔
      b.Lists at_ (sourceAddress f.config.addressHeaders r.headers peer) := by
  have hparse := parse?_resolve f.config.addressHeaders r.headers peer
  rw [← Address.trim_of_parse? hparse, ← String.toList_ofList (l := (Client.resolve ..).address)] at hparse
  rw [← h.isSome_contains_iff hparse at_, filter]
  split
  next hc => simp [hc]
  next hc => simp [hc]

/-- **The filter turns away exactly the listed addresses**, after whatever was done to the
blacklist, and forwards every other request. Only the address counts: requests that come from one
address have one fate, under any two filters. -/
theorem denies_iff_listed (f : Filter) (source : Blacklist.Source) (window : Duration)
    (ops : List Blacklist.Operation) (r : Request) (peer : Address) (at_ : Blacklist.Readings) :
    let b := (Blacklist.new source window).run ops
    let a := sourceAddress f.config.addressHeaders r.headers peer
    ((f.filter r peer b at_).1.answer? = some denial ↔ b.Lists at_ a) ∧
      (¬ b.Lists at_ a → ∃ q c, (f.filter r peer b at_).1 = .forward q c) ∧
      ∀ (f' : Filter) (r' : Request) (peer' : Address),
        sourceAddress f'.config.addressHeaders r'.headers peer' = a →
          ((f'.filter r' peer' b at_).1.answer? = some denial ↔
            (f.filter r peer b at_).1.answer? = some denial) := by
  intro b a
  have hb : b.Canonical := (Blacklist.Canonical.new source window).run ops
  have hdeny : (f.filter r peer b at_).1 = .deny ↔ b.Lists at_ a :=
    filter_eq_deny_iff f r peer hb at_
  refine ⟨by rw [Outcome.answer?_eq_some_iff, hdeny], fun hlists => ?_, fun f' r' peer' ha => ?_⟩
  · match ho : (f.filter r peer b at_).1 with
    | .deny => exact absurd (hdeny.1 ho) hlists
    | .forward q c => exact ⟨q, c, rfl⟩
  · rw [Outcome.answer?_eq_some_iff, Outcome.answer?_eq_some_iff, filter_eq_deny_iff f' r' peer' hb,
      hdeny, ha]

end Filter
end EdgeGateway.Edge
