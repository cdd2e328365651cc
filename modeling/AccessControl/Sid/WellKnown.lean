import AccessControl.Sid

/-!
# Well-known SIDs

SIDs that mean the same principal on every system.
-/

namespace AccessControl.WellKnown

/-- The authority of the null SID. -/
def nullAuthority : Authority := .ofNat 0
/-- The authority of the SID of everyone. -/
def worldAuthority : Authority := .ofNat 1
/-- The authority of the SID of local users. -/
def localAuthority : Authority := .ofNat 2
/-- The authority of SIDs that stand for the creator of an object. -/
def creatorAuthority : Authority := .ofNat 3
/-- The authority of the system's own principals. -/
def ntAuthority : Authority := .ofNat 5
/-- The authority of integrity levels. -/
def mandatoryLabelAuthority : Authority := .ofNat 16

/-- A SID with one sub-authority. -/
def single (authority : Authority) (rid : UInt32) : FixedSid 1 := .make authority #v[rid]

/-- An alias of the built-in domain. -/
def builtin (rid : UInt32) : FixedSid 2 := .make ntAuthority #v[32, rid]

/-- The SID without members. -/
def nobody : FixedSid 1 := single nullAuthority 0
/-- Every user. -/
def everyone : FixedSid 1 := single worldAuthority 0
/-- Users who logged on locally. -/
def localUsers : FixedSid 1 := single localAuthority 0
/-- The owner of a new object, to be replaced by the owner's own SID. -/
def creatorOwner : FixedSid 1 := single creatorAuthority 0
/-- The group of a new object, to be replaced by the group's own SID. -/
def creatorGroup : FixedSid 1 := single creatorAuthority 1
/-- The current owner of an object. -/
def ownerRights : FixedSid 1 := single creatorAuthority 4
/-- Users who logged on interactively. -/
def interactive : FixedSid 1 := single ntAuthority 4
/-- Users who proved their identity. -/
def authenticatedUsers : FixedSid 1 := single ntAuthority 11
/-- The system itself. -/
def localSystem : FixedSid 1 := single ntAuthority 18
/-- Services with few local rights. -/
def localService : FixedSid 1 := single ntAuthority 19
/-- Services that act on the network as the machine. -/
def networkService : FixedSid 1 := single ntAuthority 20
/-- The administrators of the machine. -/
def builtinAdministrators : FixedSid 2 := builtin 544
/-- The users of the machine. -/
def builtinUsers : FixedSid 2 := builtin 545
/-- The guests of the machine. -/
def builtinGuests : FixedSid 2 := builtin 546
/-- The power users of the machine. -/
def builtinPowerUsers : FixedSid 2 := builtin 547
/-- Low integrity. -/
def lowMandatoryLevel : FixedSid 1 := single mandatoryLabelAuthority 4096
/-- Medium integrity. -/
def mediumMandatoryLevel : FixedSid 1 := single mandatoryLabelAuthority 8192
/-- High integrity. -/
def highMandatoryLevel : FixedSid 1 := single mandatoryLabelAuthority 12288
/-- Integrity of the system. -/
def systemMandatoryLevel : FixedSid 1 := single mandatoryLabelAuthority 16384

/-- The well-known SIDs by name. -/
def named : List (String × Sid) :=
  [("NULL", nobody.toSid), ("WORLD", everyone.toSid), ("EVERYONE", everyone.toSid),
    ("LOCAL", localUsers.toSid), ("CREATOR_OWNER", creatorOwner.toSid),
    ("CREATOR_GROUP", creatorGroup.toSid), ("OWNER_RIGHTS", ownerRights.toSid),
    ("INTERACTIVE", interactive.toSid), ("AUTHENTICATED_USERS", authenticatedUsers.toSid),
    ("LOCAL_SYSTEM", localSystem.toSid), ("LOCAL_SERVICE", localService.toSid),
    ("NETWORK_SERVICE", networkService.toSid),
    ("BUILTIN_ADMINISTRATORS", builtinAdministrators.toSid),
    ("BUILTIN_USERS", builtinUsers.toSid), ("BUILTIN_GUESTS", builtinGuests.toSid),
    ("BUILTIN_POWER_USERS", builtinPowerUsers.toSid),
    ("LOW_MANDATORY_LEVEL", lowMandatoryLevel.toSid),
    ("MEDIUM_MANDATORY_LEVEL", mediumMandatoryLevel.toSid),
    ("HIGH_MANDATORY_LEVEL", highMandatoryLevel.toSid),
    ("SYSTEM_MANDATORY_LEVEL", systemMandatoryLevel.toSid)]

end AccessControl.WellKnown
