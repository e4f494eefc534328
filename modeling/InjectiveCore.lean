import InjectiveCore.DecArithProofs
import InjectiveCore.DeltaLedgerProofs
import InjectiveCore.ExchangePositionProofs
import InjectiveCore.ExchangeFeesProofs
import InjectiveCore.ExchangeDerivativeFillProofs
import InjectiveCore.ExchangeDerivativeLedgerProofs
import InjectiveCore.ExchangeDerivativeHoldProofs
import InjectiveCore.ExchangeSpotFillProofs
import InjectiveCore.ExchangeSpotHoldProofs
import InjectiveCore.MatchLoopProofs
import InjectiveCore.TwoQueueProofs
import InjectiveCore.ExchangeFbaProofs
import InjectiveCore.ExchangeSpotBookProofs
import InjectiveCore.ExchangeSpotBatchProofs
import InjectiveCore.GrossExposureProofs
import InjectiveCore.ExchangeMatchStateProofs
import InjectiveCore.ExchangeDerivativeBookProofs
import InjectiveCore.ExchangeLinkedBooksProofs
import InjectiveCore.ExchangeDerivativeAuctionProofs
import InjectiveCore.ExchangeMarketBookProofs
import InjectiveCore.ExchangeOpenInterestProofs
import InjectiveCore.ExchangeMarketFundsProofs
import InjectiveCore.ExchangeSettlementProofs
import InjectiveCore.ExchangeSocializedLossProofs
import InjectiveCore.ExchangeLossWaterfallProofs
import InjectiveCore.ExchangeDepositsProofs
import InjectiveCore.ExchangeClosingCheckProofs
import InjectiveCore.ExchangeLiquidationFundsProofs
import InjectiveCore.ExchangeCrossAdmissionProofs
import InjectiveCore.ExchangeOpenNotionalCapProofs
import InjectiveCore.ExchangeMarketCapProofs
import InjectiveCore.ExchangeConditionalFeesProofs
import InjectiveCore.ByteKeyProofs
import InjectiveCore.PriorityCancelProofs
import InjectiveCore.ExchangeSubaccountOrdersProofs
import InjectiveCore.ExchangeReduceOnlyProofs
import InjectiveCore.ExchangeOrderKeysProofs
import InjectiveCore.ExchangeOrderStoreProofs
import InjectiveCore.ExchangeOrderMetadataProofs
import InjectiveCore.ExchangeOrderBatchProofs
import InjectiveCore.ExchangeOrderBlocksProofs
import InjectiveCore.PeggyPoolProofs
import InjectiveCore.PeggyPlaceProofs
import InjectiveCore.PeggyTransfersProofs
import InjectiveCore.PeggyBridgeProofs
import InjectiveCore.PeggySupplyProofs
import InjectiveCore.PeggyDoubleSpendProofs
import InjectiveCore.PeggyAttestationProofs
import InjectiveCore.PeggyClaimHashProofs
import InjectiveCore.PeggyClaimIdentityProofs
import InjectiveCore.ExchangeInsuranceDrawProofs
import InjectiveCore.ExchangeOrderLockProofs
import InjectiveCore.ExchangePositionEquityProofs
import InjectiveCore.ExchangePriceKeysProofs
import InjectiveCore.BalanceSheetProofs
import InjectiveCore.ExchangePositionOffsetProofs
import InjectiveCore.VouchersProofs
import InjectiveCore.AuctionProofs
import InjectiveCore.AuctionEscrowProofs
import InjectiveCore.InsuranceProofs
import InjectiveCore.InsuranceSolvencyProofs
import InjectiveCore.InsuranceRedemptionProofs
import InjectiveCore.InsuranceSharePriceProofs
import InjectiveCore.PeggyBatchBlocksProofs
import InjectiveCore.ExchangeMarketHoldProofs
import InjectiveCore.PeggyRateLimitProofs
import InjectiveCore.ExchangeConditionalTriggersProofs
import InjectiveCore.ExchangeTradingRewardsProofs
import InjectiveCore.ExchangeFundingScheduleProofs
import InjectiveCore.ExchangeStakeGrantsProofs
import InjectiveCore.PeggoOracleProofs
import InjectiveCore.ExchangeTradeStatisticsProofs
import InjectiveCore.PermissionsSendsProofs
import InjectiveCore.Erc20TokenPairProofs
