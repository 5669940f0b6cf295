import Mathlib.Data.List.Forall2
import KajovoDagmar.Library.PairSplit
import KajovoDagmar.Library.TextDecoder

/-! # Event streams

`apiEventStream` reads the body of a response chunk by chunk and hands over the JSON of every block that a blank
line ends.  Between two chunks it keeps the state of the decoder and the block that is not ended yet, so what it
delivers depends on the bytes only: it is what the blocks of the whole text say (`apiEventStream_eq`). -/

namespace KajovoDagmar

namespace ApiClient

structure ApiError where
  code : String
  message : String
  status : ℕ
  deriving DecidableEq

/-- A response, with the chunks of its body. -/
structure Response where
  ok : Bool
  status : ℕ
  body : Option (List (List UInt8))

/-- What has been delivered: the number of blocks that are done with, the events among them, and the text that
is no JSON, if there was one. -/
structure Delivery (E : Type*) where
  blocks : ℕ
  events : List E
  failed : Option (List Char)

section stream

variable {E : Type*} (parse : List Char → Option E)

/-- The data of a block: its first line of data. -/
def dataOf (block : List Char) : Option (List Char) :=
  ((block.splitOn '\n').find? fun item => "data: ".toList.isPrefixOf item).map fun line => line.drop 6

/-- The blocks of a buffer, up to the first one whose data are no JSON. -/
def deliver : List (List Char) → Delivery E
  | [] => ⟨0, [], none⟩
  | block :: blocks =>
    match dataOf block with
    | none => ⟨(deliver blocks).blocks + 1, (deliver blocks).events, (deliver blocks).failed⟩
    | some data =>
      match parse data with
      | none => ⟨0, [], some data⟩
      | some event => ⟨(deliver blocks).blocks + 1, event :: (deliver blocks).events, (deliver blocks).failed⟩

/-- What is delivered after a delivery that has not failed. -/
def Delivery.andThen (first second : Delivery E) : Delivery E :=
  if first.failed.isSome then first
  else ⟨first.blocks + second.blocks, first.events ++ second.events, second.failed⟩

/-- The loop over the chunks, and its last turn, in which the decoder is flushed. -/
def readChunks (decoder : TextDecoder) (buffer : List Char) : List (List UInt8) → Delivery E
  | [] => deliver parse (List.ended '\n' (buffer ++ (decoder.decode [] false).2))
  | value :: chunks =>
    let received := buffer ++ (decoder.decode value true).2
    (deliver parse (List.ended '\n' received)).andThen
      (readChunks (decoder.decode value true).1 (List.unended '\n' received) chunks)

def apiEventStream (response : Response) : Except ApiError (Delivery E) :=
  match response.ok, response.body with
  | true, some chunks => .ok (readChunks parse {} [] chunks)
  | _, _ => .error ⟨"request_failed", "Stream testu se nepodařilo spustit.", response.status⟩

/-! ### The whole stream -/

variable {parse}

theorem deliver_append (bs cs : List (List Char)) :
    deliver parse (bs ++ cs) = (deliver parse bs).andThen (deliver parse cs) := by
  induction bs with
  | nil => simp [deliver, Delivery.andThen]
  | cons b bs ih =>
      rw [List.cons_append, deliver, deliver, ih]
      unfold Delivery.andThen
      cases dataOf b with
      | none =>
          by_cases hfailed : (deliver parse bs).failed.isSome
          · simp [hfailed]
          · simp [hfailed, Nat.add_right_comm]
      | some data =>
          cases hparse : parse data with
          | none => simp [hparse]
          | some event =>
              by_cases hfailed : (deliver parse bs).failed.isSome
              · simp [hparse, hfailed]
              · simp [hparse, hfailed, Nat.add_right_comm]

/-- **Run lemma**: the chunks are read like the buffer with the text of all their bytes. -/
theorem readChunks_eq (decoder : TextDecoder) (buffer : List Char) (chunks : List (List UInt8)) :
    readChunks parse decoder buffer chunks =
      deliver parse (List.ended '\n' (buffer ++ (decoder.decode chunks.flatten false).2)) := by
  induction chunks generalizing decoder buffer with
  | nil => rfl
  | cons value chunks ih =>
      rw [readChunks, ih, ← deliver_append, ← List.ended_append, List.flatten_cons, TextDecoder.decode_append,
        List.append_assoc]

/-! ### What a stream delivers -/

/-- The lines of a block. -/
structure Lines (block : List Char) (lines : List (List Char)) : Prop where
  joined : ['\n'].intercalate lines = block
  nonempty : lines ≠ []
  unbroken : ∀ line ∈ lines, '\n' ∉ line

/-- The first line of a block that begins with `data: ` goes on with the given characters. -/
def FirstData (block data : List Char) : Prop :=
  ∃ before after : List (List Char), Lines block (before ++ ("data: ".toList ++ data) :: after) ∧
    ∀ line ∈ before, ¬"data: ".toList <+: line

variable (parse) in
/-- What a block that is done with has delivered. -/
inductive Outcome (block : List Char) : Option E → Prop where
  | nothing (h : ∀ data, ¬FirstData block data) : Outcome block none
  | event {data : List Char} {e : E} (h : FirstData block data) (hparse : parse data = some e) :
      Outcome block (some e)

variable (parse) in
/-- The blocks are done with in order, all of them or up to the first one whose data are no JSON. -/
structure Delivers (blocks : List (List Char)) (d : Delivery E) : Prop where
  done : ∃ outcomes, List.Forall₂ (Outcome parse) (blocks.take d.blocks) outcomes ∧ outcomes.reduceOption = d.events
  whole : d.failed = none → d.blocks = blocks.length
  broken : ∀ data, d.failed = some data →
    ∃ block, blocks[d.blocks]? = some block ∧ FirstData block data ∧ parse data = none

theorem lines_iff {block : List Char} {lines : List (List Char)} : Lines block lines ↔ block.splitOn '\n' = lines := by
  constructor
  · rintro ⟨rfl, hne, hlines⟩
    exact List.splitOn_intercalate '\n' hlines hne
  · rintro rfl
    refine ⟨List.intercalate_splitOn '\n', List.splitOn_ne_nil '\n' block, ?_⟩
    exact fun line hline => List.not_mem_of_mem_splitOn hline

theorem firstData_iff {block data : List Char} : FirstData block data ↔ dataOf block = some data := by
  simp only [FirstData, lines_iff, dataOf, Option.map_eq_some_iff, List.find?_eq_some_iff_append]
  constructor
  · rintro ⟨before, after, hlines, hbefore⟩
    refine ⟨"data: ".toList ++ data,
      ⟨List.isPrefixOf_iff_prefix.mpr (List.prefix_append _ _), before, after, hlines, ?_⟩,
      rfl⟩
    intro line hline
    rw [Bool.not_eq_true', ← Bool.not_eq_true, List.isPrefixOf_iff_prefix]
    exact hbefore line hline
  · rintro ⟨line, ⟨hhead, before, after, hlines, hbefore⟩, hdata⟩
    obtain ⟨rest, rfl⟩ := List.isPrefixOf_iff_prefix.mp hhead
    obtain rfl : rest = data := hdata
    refine ⟨before, after, hlines, fun line hline hdata => ?_⟩
    have hnot := hbefore line hline
    rw [List.isPrefixOf_iff_prefix.mpr hdata] at hnot
    exact absurd hnot (by decide)

/-- A block that yields nothing, or an event. -/
theorem outcome_iff {block : List Char} {o : Option E} : Outcome parse block o ↔
    (dataOf block = none ∧ o = none) ∨ ∃ data e, dataOf block = some data ∧ parse data = some e ∧ o = some e := by
  constructor
  · rintro (h | ⟨h, hparse⟩)
    · exact .inl ⟨Option.eq_none_iff_forall_not_mem.mpr fun data hdata => h data (firstData_iff.mpr hdata), rfl⟩
    · exact .inr ⟨_, _, firstData_iff.mp h, hparse, rfl⟩
  · rintro (⟨h, rfl⟩ | ⟨data, e, h, hparse, rfl⟩)
    · exact .nothing fun data hdata => absurd (firstData_iff.mp hdata) (by simp [h])
    · exact .event (firstData_iff.mpr h) hparse

/-- What is delivered behind a block that is done with. -/
theorem Delivers.cons {block : List Char} {blocks : List (List Char)} {d : Delivery E} {o : Option E}
    (ho : Outcome parse block o) (h : Delivers parse blocks d) :
    Delivers parse (block :: blocks) ⟨d.blocks + 1, o.toList ++ d.events, d.failed⟩ := by
  obtain ⟨⟨outcomes, houtcomes, hevents⟩, hwhole, hbroken⟩ := h
  refine ⟨⟨o :: outcomes, ?_, ?_⟩, fun hfailed => congrArg (· + 1) (hwhole hfailed), hbroken⟩
  · rw [List.take_succ_cons]
    exact .cons ho houtcomes
  · cases o with
    | none => exact hevents
    | some e => exact congrArg (e :: ·) hevents

theorem delivers_deliver (blocks : List (List Char)) : Delivers parse blocks (deliver parse blocks) := by
  induction blocks with
  | nil => exact ⟨⟨[], .nil, rfl⟩, fun _ => rfl, fun _ h => absurd h.symm (Option.some_ne_none _)⟩
  | cons block blocks ih =>
      rw [deliver]
      cases hdata : dataOf block with
      | none => exact Delivers.cons (outcome_iff.mpr (.inl ⟨hdata, rfl⟩)) ih
      | some data =>
          cases hparse : parse data with
          | none =>
              simp only [hparse]
              refine ⟨⟨[], .nil, rfl⟩, fun h => absurd h (Option.some_ne_none _), fun data' h => ?_⟩
              obtain rfl := Option.some.inj h
              exact ⟨block, rfl, firstData_iff.mpr hdata, hparse⟩
          | some e =>
              simp only [hparse]
              exact Delivers.cons (outcome_iff.mpr (.inr ⟨data, e, hdata, hparse, rfl⟩)) ih

theorem Delivers.eq_deliver {blocks : List (List Char)} {d : Delivery E} (h : Delivers parse blocks d) :
    d = deliver parse blocks := by
  induction blocks generalizing d with
  | nil =>
      obtain ⟨n, events, failed⟩ := d
      obtain ⟨⟨outcomes, houtcomes, hevents⟩, hwhole, hbroken⟩ := h
      cases failed with
      | none =>
          obtain rfl : n = 0 := hwhole rfl
          cases houtcomes
          obtain rfl : [] = events := hevents
          rfl
      | some data =>
          obtain ⟨block, hblock, -⟩ := hbroken data rfl
          exact absurd hblock (by simp)
  | cons block blocks ih =>
      obtain ⟨n, events, failed⟩ := d
      obtain ⟨⟨outcomes, houtcomes, hevents⟩, hwhole, hbroken⟩ := h
      cases n with
      | zero =>
          -- nothing is done with, so the first block has failed
          cases failed with
          | none => exact absurd (hwhole rfl) (by simp)
          | some data =>
              obtain ⟨block', hblock, hdata, hparse⟩ := hbroken data rfl
              obtain rfl : block = block' := Option.some.inj hblock
              cases houtcomes
              obtain rfl : [] = events := hevents
              simp only [deliver, firstData_iff.mp hdata, hparse]
      | succ n =>
          rw [List.take_succ_cons] at houtcomes
          obtain ⟨o, outcomes, ho, hrest, rfl⟩ := List.forall₂_cons_left_iff.mp houtcomes
          have hd : Delivers parse blocks ⟨n, outcomes.reduceOption, failed⟩ :=
            ⟨⟨outcomes, hrest, rfl⟩, fun hfailed => Nat.succ_injective (hwhole hfailed), hbroken⟩
          rw [deliver, ← ih hd]
          rcases outcome_iff.mp ho with ⟨hdata, rfl⟩ | ⟨data, e, hdata, hparse, rfl⟩
          · obtain rfl : outcomes.reduceOption = events := hevents
            simp only [hdata]
          · obtain rfl : e :: outcomes.reduceOption = events := hevents
            simp only [hdata, hparse]

/-- **The delivery of a stream is that of the blocks which blank lines end in the whole text**, whatever the chunks
are. -/
theorem apiEventStream_eq (parse : List Char → Option E) (status : ℕ) (chunks : List (List UInt8)) :
    ∃ d, apiEventStream parse ⟨true, status, some chunks⟩ = .ok d ∧
      ∀ d', (∃ blocks, List.PairCut '\n' (TextDecoder.text chunks.flatten) blocks ∧ Delivers parse blocks d') ↔
        d' = d := by
  refine ⟨_, congrArg Except.ok (readChunks_eq {} [] chunks), fun d' => ?_⟩
  constructor
  · rintro ⟨blocks, hcut, hd⟩
    rw [hd.eq_deliver, hcut.eq_ended]
    rfl
  · rintro rfl
    exact ⟨_, List.pairCut_ended _, delivers_deliver _⟩

end stream

end ApiClient

end KajovoDagmar
