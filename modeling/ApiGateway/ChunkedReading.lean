import Mathlib.Data.List.Infix

/-! Reading a byte stream in chunks. A reader takes each chunk into its state
until it stops with a verdict. If its state always describes the bytes read so
far, and a verdict agrees with the one for the whole stream, then the cuts
between the chunks do not matter. -/

namespace ApiGateway.ChunkedReading

variable {β σ ω : Type*}

/-- Either the reader goes on in a new state or it has reached a verdict. -/
inductive Reading (σ ω : Type*) where
  | more (state : σ)
  | stop (verdict : ω)

def Reading.Holds (onMore : σ → Prop) (onStop : ω → Prop) : Reading σ ω → Prop
  | .more state => onMore state
  | .stop verdict => onStop verdict

/-- Chunks are fed until a verdict; what comes later is not looked at. -/
def feed (step : σ → List β → Reading σ ω) (state : σ) : List (List β) → Reading σ ω
  | [] => .more state
  | chunk :: rest =>
      match step state chunk with
      | .more state' => feed step state' rest
      | .stop verdict => .stop verdict

/-- One step, on bytes that are a prefix of the whole stream, keeps the
description or stops with a verdict that is right for the whole stream. -/
def Sound (step : σ → List β → Reading σ ω) (Describes : σ → List β → Prop)
    (Right : ω → Prop) (whole : List β) : Prop :=
  ∀ state seen chunk, chunk ≠ [] → Describes state seen → seen ++ chunk <+: whole →
    (step state chunk).Holds (Describes · (seen ++ chunk)) Right

theorem feed_sound {step : σ → List β → Reading σ ω} {Describes : σ → List β → Prop}
    {Right : ω → Prop} {whole : List β} (sound : Sound step Describes Right whole)
    {chunks : List (List β)} (nonempty : ∀ chunk ∈ chunks, chunk ≠ []) {state : σ}
    {seen : List β} (start : Describes state seen) (fits : seen ++ chunks.flatten <+: whole) :
    (feed step state chunks).Holds (Describes · (seen ++ chunks.flatten)) Right := by
  induction chunks generalizing state seen with
  | nil => simpa [feed, Reading.Holds] using start
  | cons chunk rest ih =>
      have hfits : seen ++ chunk ++ rest.flatten <+: whole := by
        simpa [List.append_assoc] using fits
      have hstep := sound state seen chunk (nonempty chunk (by simp)) start
        ((List.prefix_append _ _).trans hfits)
      rw [feed]
      cases h : step state chunk with
      | more state' =>
          rw [h] at hstep
          have hrest := ih (fun c hc => nonempty c (by simp [hc])) hstep hfits
          simpa [List.append_assoc] using hrest
      | stop verdict =>
          rw [h] at hstep
          exact hstep

end ApiGateway.ChunkedReading
