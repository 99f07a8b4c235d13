import ContentOverlay.Calendar.Civil

/-!
# Points in time with an offset

A date value is an instant, counted in seconds and nanoseconds from the start of 1970 in universal
time, together with the offset from universal time at which it is to be shown.  The offset is part
of the value but not of the comparison: two dates are equal when their instants are.

A nanosecond part of a whole second or more stands for a leap second.  Leap seconds follow the last
second of a minute (`IsRegular`), but a date may have one after any second.

Instants lie in the years from -262143 to 262142 of universal time.  Near the ends of this range an
offset can lead out of it; then the date has no local time.
-/

set_option autoImplicit false

namespace ContentOverlay

namespace Calendar

/-- The first second of the year -262143, the first year that dates reach. -/
def firstSecond : Int := -8334601228800

/-- The last second of the year 262142, the last year that dates reach. -/
def lastSecond : Int := 8210266876799

end Calendar

/-- An instant and the offset at which it is shown. -/
structure DateTime where
  /-- Whole seconds since the start of 1970, universal time. -/
  seconds : Int
  /-- Nanoseconds into the second; from a whole second up, into the leap second that follows it. -/
  nanos : Nat
  /-- Seconds that local time is ahead of universal time. -/
  offset : Int
  firstSecond_le : Calendar.firstSecond ≤ seconds
  le_lastSecond : seconds ≤ Calendar.lastSecond
  nanos_lt : nanos < 2000000000
  offset_gt : -86400 < offset
  offset_lt : offset < 86400
deriving DecidableEq

namespace DateTime

/-- Whether the leap second, if there is one, follows the last second of a minute. -/
def IsRegular (d : DateTime) : Prop := 1000000000 ≤ d.nanos → d.seconds % 60 = 59

instance (d : DateTime) : Decidable d.IsRegular :=
  inferInstanceAs (Decidable (_ → _))

/-- The date of a time stamp and an offset, if there is one.  A time stamp is refused when it has a
leap second where leap seconds do not occur. -/
def of? (seconds : Int) (nanos : Nat) (offset : Int) : Option DateTime :=
  if h : Calendar.firstSecond ≤ seconds ∧ seconds ≤ Calendar.lastSecond ∧ nanos < 2000000000 ∧
      (1000000000 ≤ nanos → seconds % 60 = 59) ∧ -86400 < offset ∧ offset < 86400 then
    some ⟨seconds, nanos, offset, h.1, h.2.1, h.2.2.1, h.2.2.2.2.1, h.2.2.2.2.2⟩
  else none

/-- Whether two dates denote the same instant. -/
def sameInstant (a b : DateTime) : Bool := a.seconds == b.seconds && a.nanos == b.nanos

/-- The seconds of local time. -/
def localSeconds (d : DateTime) : Int := d.seconds + d.offset

/-- Whether the local time lies in a year that dates reach. -/
def hasLocal (d : DateTime) : Bool :=
  Calendar.firstSecond ≤ d.localSeconds ∧ d.localSeconds ≤ Calendar.lastSecond

/-- The local calendar date. -/
def localDate (d : DateTime) : Calendar.Civil := Calendar.civilOfDays (d.localSeconds / 86400)

/-- The second of the local day. -/
def secondOfDay (d : DateTime) : Nat := (d.localSeconds % 86400).toNat

end DateTime
end ContentOverlay
