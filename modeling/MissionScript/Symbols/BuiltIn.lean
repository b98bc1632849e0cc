import MissionScript.Symbols

/-!
# The built-in tables

The functions and keywords of the game, by id, and its type names, by index: buildings first, then
units. Ids from 162 on are keywords and operators.
-/

namespace MissionScript

namespace BuiltIn

/-- Named so that the position of a name is its id. -/
def functionNames : List String := [
  "ModelTick", "Random", "Multiplayer", "GetUnusedBasePoint", "GetSideBasePoint",
  "GetScriptPoint", "GetEntrancePoint", "GetExitPoint", "GetNeutralEntrancePoint",
  "GetEntrancePointByIndex", "GetEntranceNearToPos", "GetEntranceFarFromPos", "GetSidePosition",
  "GetObjectPosition", "GetPlayerSide", "GetSecondPlayerSide", "GetEnemySide", "GetObjectSide",
  "CreateSide", "GetSideCash", "GetSideSpice", "NewObject", "ObjectValid", "ObjectDestroyed",
  "ObjectNearToSide", "ObjectNearToSideBase", "ObjectNearToObject", "ObjectVisibleToSide",
  "ObjectTypeVisibleToSide", "ObjectGetHealth", "ObjectMaxHealth", "SideVisibleToSide",
  "SideNearToSide", "SideNearToSideBase", "SideNearToPoint", "SideUnitCount",
  "SideBuildingCount", "SideObjectCount", "SideAIDone", "EventObjectDelivered",
  "EventObjectConstructed", "EventObjectTypeConstructed", "EventSideAttacksSide",
  "EventObjectAttacksSide", "EventObjectDestroyed", "Message", "GiftingMessage", "TimerMessage",
  "TimerMessageRemove", "CarryAllDelivery", "Delivery", "StarportDelivery", "BuildObject",
  "ObjectChangeSide", "ObjectSetHealth", "ObjectInfect", "ObjectDetonate", "ObjectChange",
  "ObjectToolTip", "SideFriendTo", "SideEnemyTo", "SideNeutralTo", "AddSideCash",
  "SideAIControl", "SideAIAggressive", "SideAIAggressiveTowards", "SideAIBehaviourAggressive",
  "SideAIBehaviourRetreat", "SideAIBehaviourNormal", "SideAIEncounterIgnore",
  "SideAIEncounterAttack", "SideAIMove", "SideAIStop", "SideAIAttackObject", "SideAIGuardObject",
  "SideAIExitMap", "SideAIEnterBuilding", "SideAIBehaviourDefensive", "SideAIHeadlessChicken",
  "SideAIShuffle", "SideAttractsWorms", "SideRepelsWorms", "ForceWormStrike", "MissionOutcome",
  "EndGameWin", "EndGameLose", "NewCrateUnit", "NewCrateBomb", "NewCrateStealth", "NewCrateCash",
  "NewCrateShroud", "SideChangeSide", "SetReinforcements", "SideNuke", "SideNukeAll",
  "RadarEnabled", "RadarAlert", "RemoveShroud", "ReplaceShroud", "RemoveMapShroud",
  "CameraLookAtPoint", "CameraPanToPoint", "CameraScrollToPoint", "CameraZoomTo",
  "CameraViewFrom", "CameraStartRotate", "CameraStopRotate", "CameraTrackObject",
  "CameraStopTrack", "CameraIsPanning", "CameraIsScrolling", "CameraIsSpinning", "CameraStore",
  "CameraRestore", "PIPCameraLookAtPoint", "PIPCameraPanToPoint", "PIPCameraScrollToPoint",
  "PIPCameraZoomTo", "PIPCameraViewFrom", "PIPCameraStartRotate", "PIPCameraStopRotate",
  "PIPCameraTrackObject", "PIPCameraStopTrack", "PIPCameraIsPanning", "PIPCameraIsScrolling",
  "PIPCameraIsSpinning", "PIPCameraStore", "PIPCameraRestore", "PIPRelease", "FreezeGame",
  "UnFreezeGame", "DisableUI", "EnableUI", "ObjectDeploy", "ObjectUndeploy", "ObjectSell",
  "ObjectRemove", "NewObjectInAPC", "ObjectIsCarried", "NewObjectOffsetOrientation",
  "GetNeutralSide", "GetNeutralExitPoint", "PlaySound", "Neg", "SetValue", "GetIsolatedEntrance",
  "GetHideOut", "GetConvoyWayPointFunction", "GetValley", "GetIsolatedInfantryRock",
  "SetSideColor", "GetSideColor", "SetSideCash", "AirStrike", "AirStrikeDone", "SetThreatLevel",
  "SetVeterancy", "FireSpecialWeapon", "SetTilePos", "CentreCursor", "BreakPoint",
  "NormalConditionLose", "int", "obj", "pos", "if", "else", "endif", "==", "!=", ">=", "<=", ">",
  "<", "&&", "||", "FALSE", "TRUE", "+", "-", "="]

/-- Named so that the position of a name is its index. -/
def typeNames : List String := [
  "ATRefinery", "ATFactory", "ATFactoryFrigate", "ATOutpost", "ATPillbox", "ATRocketTurret",
  "ATHanger", "ATHelipad", "ATStarport", "ATPalace", "ATConYard", "ORSmWindtrap", "ORBarracks",
  "ORWall", "ORRefinery", "ORFactory", "ORFactoryFrigate", "OROutpost", "ORGasTurret",
  "ORPopUpTurret", "ORHanger", "ORStarport", "ORPalace", "ORConYard", "TLFleshVat", "GUPalace",
  "IXResCentre", "IMBarracks", "FRCamp", "HKRefineryDock", "ATRefineryDock", "ORRefineryDock",
  "BeaconFlare", "HKScout", "HKLightInf", "HKTrooper", "HKEngineer", "HKFlamer", "ATScout",
  "ATInfantry", "ATSniper", "ATEngineer", "ATKindjal", "ORScout", "ORChemical", "ORAATrooper",
  "OREngineer", "ORMortar", "ORSaboteur", "IMGeneral", "ATGeneral", "HKGeneral", "ORGeneral",
  "IXScientist", "TLScientist", "IXSlave", "CubScout", "ATMilitia", "HKBuzzsaw", "HKAssault",
  "HKFlame", "HKInkVine", "HKMissile", "HKDevastator", "ATTrike", "ATMongoose", "ATAPC",
  "ATRepairUnit", "ATMinotaurus", "ATSonicTank", "ORDustScout", "ORLaserTank", "ORAPC",
  "ORKobra", "ORDeviator", "HKGunship", "HKADVCarryall", "HKDeathHand", "HKADP", "ATOrni",
  "ATADVCarryall", "ATHawkWeapon", "ATADP", "OREITS", "ORADVCarryall", "ORBeamWeapon", "ORADP",
  "Harvester", "MCV", "Carryall", "IXInfiltrator", "IXProjector", "TLContaminator", "TLLeech",
  "IMSardaukar", "IMADVSardaukar", "IMDropShip", "FRFremen", "FRADVFremen", "StoryFRFremen",
  "StoryFRADVFremen", "WormRider", "GUMaker", "GUNIABTank", "INYak", "INYakHauder", "INYakRider",
  "INSandCrawler", "INBuggy", "INMedicalVehicle", "INFemaleCiv", "HKSmWindtrap", "HKBarracks",
  "HKWall", "HKRefinery", "HKFactory", "HKFactoryFrigate", "HKOutpost", "HKFlameTurret",
  "HKGunTurret", "HKHanger", "HKHelipad", "HKStarport", "HKPalace", "HKConYard", "ATSmWindtrap",
  "ATBarracks", "ATWall"]

def functions : FunctionTable where
  keywordThreshold := 162
  names := ⟨fun id => functionNames[id.toNat]?⟩

def strings : StringTable := ⟨typeNames, by simp [typeNames]⟩

def tables : SymbolTables := ⟨functions, some strings⟩

end BuiltIn

end MissionScript
