import FastMarket.Logger.Writer

/-!
# Images of parsed records, and reading them back

A record `ITCHParser::parse` returns fills the union member its tag names, so
`serialize_message` copies exactly `get_message_size` bytes of it, the tag byte first. A reader
that takes the width of each record from its first byte therefore splits a concatenation of
such images back into the images.
-/

namespace FastMarket

set_option autoImplicit false

/-- A record `ITCHParser::parse` can return. -/
def Parsed (msg : ParsedMessage) : Prop := ∃ data length now, parse data length now = some msg

/-- The images of records, one after another. -/
def images (msgs : List ParsedMessage) : List (BitVec 8) := (msgs.map serializeMessage).flatten

@[simp] theorem images_nil : images [] = [] := rfl

@[simp] theorem images_cons (msg : ParsedMessage) (msgs : List ParsedMessage) :
    images (msg :: msgs) = serializeMessage msg ++ images msgs := rfl

@[simp] theorem images_append (xs ys : List ParsedMessage) :
    images (xs ++ ys) = images xs ++ images ys := by
  simp [images]

theorem length_images_replicate (n : Nat) (msg : ParsedMessage) :
    (images (List.replicate n msg)).length = n * (serializeMessage msg).length := by
  induction n with
  | zero => simp
  | succ n ih => rw [List.replicate_succ, images_cons, List.length_append, ih, Nat.succ_mul, Nat.add_comm]

theorem Body.head?_packedImage (b : Body) : (packedImage b.toFields).head? = some b.header.messageType := by
  cases b <;> rfl

theorem Parsed.exists_tag {msg : ParsedMessage} (h : Parsed msg) :
    ∃ (t : Tag) (data : Nat → BitVec 8) (now : BitVec 64),
      msg = ⟨t.type, t.parseBody data, now⟩ ∧ t.type.val = data 0 := by
  obtain ⟨data, length, now, hp⟩ := h
  rw [parse_eq] at hp
  rcases ht : Tag.ofType ⟨data 0⟩ with _ | t
  · simp [ht] at hp
  · simp only [ht, Option.some_bind] at hp
    split_ifs at hp
    exact ⟨t, data, now, (Option.some.inj hp).symm, by rw [Tag.ofType_eq_some.1 ht]⟩

/-- The image of a parsed record is `get_message_size` bytes, its first byte the tag. -/
theorem Parsed.image {msg : ParsedMessage} (h : Parsed msg) :
    ∃ t : Tag, Tag.ofType msg.type = some t ∧ (serializeMessage msg).length = t.size ∧
      getMessageSize msg = t.size ∧ (serializeMessage msg).head? = some msg.type.val := by
  obtain ⟨t, data, now, rfl, hval⟩ := h.exists_tag
  have hser : serializeMessage ⟨t.type, t.parseBody data, now⟩ = packedImage (t.parseBody data).toFields := by
    rw [serializeMessage_eq, if_pos (by simp)]
  refine ⟨t, Tag.ofType_type t, ?_, getMessageSize_type t _ now, ?_⟩
  · rw [hser, length_packedImage_toFields, Tag.tag_parseBody]
  · rw [hser, Body.head?_packedImage, Tag.messageType_parseBody, ← hval]

theorem Parsed.length_image {msg : ParsedMessage} (h : Parsed msg) :
    (serializeMessage msg).length = getMessageSize msg := by
  obtain ⟨t, -, hl, hs, -⟩ := h.image
  rw [hl, hs]

theorem Parsed.length_image_pos {msg : ParsedMessage} (h : Parsed msg) :
    0 < (serializeMessage msg).length := by
  obtain ⟨t, -, hl, -, -⟩ := h.image
  exact hl ▸ lt_of_le_of_lt (Nat.zero_le _) (Tag.header_size_lt t)

/-- Parsed records have no image only when there are none. -/
theorem images_eq_nil_iff {msgs : List ParsedMessage} (h : ∀ msg ∈ msgs, Parsed msg) :
    images msgs = [] ↔ msgs = [] := by
  cases msgs with
  | nil => exact iff_of_true rfl rfl
  | cons msg msgs =>
    refine iff_of_false (fun he => ?_) (List.cons_ne_nil _ _)
    have hpos := (h msg (List.mem_cons_self _ _)).length_image_pos
    have := congrArg List.length he
    simp only [images_cons, List.length_append, List.length_nil] at this
    omega

theorem length_images {msgs : List ParsedMessage} (h : ∀ msg ∈ msgs, Parsed msg) :
    (images msgs).length = (msgs.map getMessageSize).sum := by
  induction msgs with
  | nil => rfl
  | cons msg msgs ih =>
    simp only [images_cons, List.length_append, List.map_cons, List.sum_cons,
      (h msg (List.mem_cons_self _ _)).length_image, ih fun m hm => h m (List.mem_cons_of_mem _ hm)]

/-- The claim's reader: at each record start, the tag byte names the record's width, through
the table of `get_message_size`; it stops at the end of the bytes, and fails on an unknown tag
or a short record. -/
def scanLog : Nat → List (BitVec 8) → Option (List (List (BitVec 8)))
  | _, [] => some []
  | 0, _ :: _ => none
  | fuel + 1, b :: bs =>
    (Tag.ofType ⟨b⟩).bind fun t =>
      if t.size ≤ (b :: bs).length then
        (scanLog fuel ((b :: bs).drop t.size)).map ((b :: bs).take t.size :: ·)
      else none

theorem scanLog_images {msgs : List ParsedMessage} (h : ∀ msg ∈ msgs, Parsed msg) (fuel : Nat)
    (hfuel : (images msgs).length ≤ fuel) :
    scanLog fuel (images msgs) = some (msgs.map serializeMessage) := by
  induction msgs generalizing fuel with
  | nil => cases fuel <;> rfl
  | cons msg msgs ih =>
    obtain ⟨t, ht, hl, -, hhead⟩ := (h msg (List.mem_cons_self _ _)).image
    have hpos : 0 < t.size := lt_of_le_of_lt (Nat.zero_le _) (Tag.header_size_lt t)
    obtain ⟨b, bs, hb⟩ := List.exists_cons_of_length_pos (hl ▸ hpos : 0 < (serializeMessage msg).length)
    have hbt : (⟨b⟩ : MessageType) = msg.type := by
      rw [hb, List.head?_cons, Option.some.injEq] at hhead
      rw [hhead]
    simp only [images_cons, List.length_append] at hfuel
    obtain ⟨fuel, rfl⟩ : ∃ f, fuel = f + 1 := ⟨fuel - 1, by rw [hb] at hfuel; simp at hfuel; omega⟩
    rw [images_cons, hb, List.cons_append, scanLog, hbt, ht, Option.some_bind,
      if_pos (by rw [← List.cons_append, ← hb, List.length_append, hl]; omega),
      ← List.cons_append, ← hb, List.drop_left' hl, List.take_left' hl,
      ih (fun m hm => h m (List.mem_cons_of_mem _ hm)) fuel (by omega)]
    rfl

end FastMarket
